import SpdkKv.ChunkCopies
import SpdkKv.IndexReferences

/-!
# What a Finished Compaction Leaves Behind

A task that is done has marked its source deleted. It finds the live records by walking over
chunks of the source: what the bitmap calls invalid is skipped, and in a chunk only what the walk
accepts is seen. The entries that still refer to the source are followed through a run: each one
lies behind the current offset, or its copy waits to be switched to.

## Main results

* `CompactionWorld.followed_step`: **the invariant**, kept by the steps that see every live
  record they pass.
* `CompactionWorld.none_left`: in a run of such steps, no live entry refers to the source of a
  task that is done.
* `CompactionWorld.large_record_left`: a record longer than a chunk is passed over, and its entry
  refers to the deleted file.
-/

namespace SpdkKv

namespace CompactionWorld

open CompactionTask MemIndex

variable {n : ℕ} {files : CompactionFiles} {s s' : CompactionWorld n}

/-! ### Which steps see every live record -/

/-- The slot refers to the source of the task. -/
def RefersToSource (s : CompactionWorld n) (i : Fin (2 ^ n)) : Prop :=
  s.memIndex.Refers s.task.srcFileId i

/-- The offset of the record of a slot. -/
def offsetOf (s : CompactionWorld n) (i : Fin (2 ^ n)) : ℕ := (s.memIndex.entries i).byteOffset

/-- No live record lies in the header of the source. -/
def BehindHeader (s : CompactionWorld n) : Prop :=
  ∀ i, s.RefersToSource i → sizeofDataFileHeader ≤ s.offsetOf i

/-- No live record lies on the pages that are skipped, or behind the end of the source. -/
def SkipsNone (files : CompactionFiles) (s : CompactionWorld n) : Prop :=
  ∀ i, s.RefersToSource i → s.task.currentOffset ≤ s.offsetOf i →
    s.srcMeta.skipInvalidPages s.task.currentOffset files.writeOffset ≤ s.offsetOf i ∧
      s.offsetOf i < files.writeOffset

/-- The walk over the chunk accepts every live record that begins in it: at its place, with its
key and not as a tombstone, and `find` leads to its entry. -/
def AcceptsAll (s : CompactionWorld n) : Prop :=
  ∀ i, s.RefersToSource i → s.task.currentOffset ≤ s.offsetOf i →
    s.offsetOf i < s.task.currentOffset + s.task.bytesRead →
    s.memIndex.find (s.memIndex.entries i).key = some i ∧
      ∃ r ∈ chunkRecords s.task.readBuffer 0, r.key = (s.memIndex.entries i).key ∧
        r.deleted = false ∧ (s.memIndex.entries i).liesAt s.task.srcFileId
          (UInt32.ofNat ((s.task.currentOffset + r.offset) / kPageSize)) = true

/-- The copies are in another file, and `find` leads to every entry that has one. -/
def SwitchesAll (s : CompactionWorld n) : Prop :=
  (∀ g ∈ s.task.migratedEntries,
    BitVec.ofNat 10 g.newFileId.toNat ≠ BitVec.ofNat 10 s.task.srcFileId.toNat) ∧
  ∀ i, s.RefersToSource i → ∀ g ∈ s.task.migratedEntries, g.Covers (s.memIndex.entries i) →
    s.memIndex.find (s.memIndex.entries i).key = some i

/-- A call of `step` sees the live records that it passes. -/
structure StepSees (files : CompactionFiles) (s : CompactionWorld n) : Prop where
  start : s.task.state = .kInit → s.BehindHeader
  skip : s.task.state = .kReadChunk → s.SkipsNone files
  chunk : s.task.state = .kProcessEntries → s.AcceptsAll
  switch : s.task.state = .kUpdateIndices → s.SwitchesAll

/-- Others put and delete, and put nothing into the source. -/
def AppendsElsewhere (s : CompactionWorld n) : CompactionTaskEvent n → Prop
  | .others memIndex _ => ∃ op : IndexOp, op.PutsOutside s.task.srcFileId ∧
      s.memIndex.applyOp op = memIndex
  | _ => True

/-- Steps of the task see every live record that they pass, and others put nothing into the
source. -/
def Sees (files : CompactionFiles) (s : CompactionWorld n) : CompactionTaskEvent n → Prop
  | .step _ => s.task.ioPending = none → s.StepSees files
  | event => s.AppendsElsewhere event

/-! ### Following the entries -/

/-- The task has given up, and may be giving the source its entries back. -/
def GivesBack (state : CompactionState) : Prop :=
  state = .kRollback ∨ state = .kRollbackMarkSealed ∨ state = .kFailed

/-- The task has read all of the source. -/
def Ends (t : CompactionTask) : Prop :=
  t.state = .kFinalize ∨ t.state = .kMarkDeleted ∨ t.state = .kDone ∨
    t.state = .kRetryWait ∧ t.retryTargetState = .kMarkDeleted

/-- **The invariant**: an entry that refers to the source lies behind the current offset, or its
copy waits; copies wait in the write buffer; and at the end there is none. -/
structure Followed (files : CompactionFiles) (s : CompactionWorld n) : Prop where
  task : CompactionTask.Inv files.writeOffset s.task
  first : s.task.state = .kInit → s.task.currentOffset = sizeofDataFileHeader
  ahead : s.task.state ≠ .kInit → ¬ GivesBack s.task.state → ∀ i, s.RefersToSource i →
    s.task.currentOffset ≤ s.offsetOf i ∨
      ∃ g ∈ s.task.migratedEntries, g.Covers (s.memIndex.entries i)
  buffered : s.task.migratedEntries ≠ [] → 0 < s.task.writeBufferUsed
  last : Ends s.task → ∀ i, ¬ s.RefersToSource i

/-- Others add no reference. -/
theorem Followed.others {memIndex : MemIndex n} {srcMeta : PageTracking} (h : Followed files s)
    {op : IndexOp} (hop : op.PutsOutside s.task.srcFileId)
    (heq : s.memIndex.applyOp op = memIndex) :
    Followed files { s with memIndex := memIndex, srcMeta := srcMeta } := by
  subst heq
  refine ⟨h.task, h.first, fun hinit hback i hi => ?_, h.buffered, fun hends i hi => ?_⟩
  · obtain ⟨j, hj, hsame⟩ := of_refers_applyOp hop hi
    have hahead := h.ahead hinit hback j hj
    rw [offsetOf, hsame] at hahead
    exact hahead
  · obtain ⟨j, hj, -⟩ := of_refers_applyOp hop hi
    exact h.last hends j hj

section Handlers

variable {t' : CompactionTask}

/-- A handler that gives up, or goes on with that. -/
theorem followed_of_givesBack {memIndex : MemIndex n}
    (hinv : CompactionTask.Inv files.writeOffset t') (hback : GivesBack t'.state)
    (hbuffered : t'.migratedEntries ≠ [] → 0 < t'.writeBufferUsed) :
    Followed files { s with task := t', memIndex := memIndex } := by
  refine ⟨hinv, fun hs => ?_, fun _ hno => absurd hback hno, hbuffered, fun he => ?_⟩
  · rcases hback with hb | hb | hb <;> cases hb.symm.trans hs
  · rcases hback with hb | hb | hb <;> rcases he with he | he | he | ⟨he, -⟩ <;>
      cases hb.symm.trans he

variable (h : Followed files s) (hinv : CompactionTask.Inv files.writeOffset t')

include h hinv

/-- A handler that changes neither the offset nor the copies. -/
theorem Followed.keep (hsrc : t'.srcFileId = s.task.srcFileId)
    (hoffset : t'.currentOffset = s.task.currentOffset)
    (hmigrated : t'.migratedEntries = s.task.migratedEntries)
    (hbuffer : t'.writeBuffer = s.task.writeBuffer) (hinit : s.task.state ≠ .kInit)
    (hinit' : t'.state ≠ .kInit) (hback : GivesBack s.task.state → GivesBack t'.state)
    (hends : Ends t' → Ends s.task) : Followed files { s with task := t' } := by
  have hrefers : ∀ i, RefersToSource { s with task := t' } i ↔ s.RefersToSource i := fun i => by
    simp only [RefersToSource, hsrc]
  refine ⟨hinv, fun hs => absurd hs hinit', fun _ hno i hi => ?_, fun hne => ?_,
    fun he i hi => h.last (hends he) i ((hrefers i).mp hi)⟩
  · have hahead := h.ahead hinit (fun hb => hno (hback hb)) i ((hrefers i).mp hi)
    simpa only [offsetOf, hoffset, hmigrated] using hahead
  · rw [hmigrated] at hne
    rw [writeBufferUsed, hbuffer]
    exact h.buffered hne

/-- The first step. -/
theorem Followed.init (heq : t' = s.task.init files) (hstate : s.task.state = .kInit)
    (hstart : s.BehindHeader) : Followed files { s with task := t' } := by
  have hfirst := h.first hstate
  subst heq
  revert hinv
  rw [CompactionTask.init]
  split_ifs
  · exact fun hinv => followed_of_givesBack hinv (.inr (.inr rfl)) h.buffered
  · exact fun hinv => followed_of_givesBack hinv (.inr (.inr rfl)) h.buffered
  · split
    · exact fun hinv => followed_of_givesBack hinv (.inr (.inr rfl)) h.buffered
    · intro hinv
      refine ⟨hinv, fun hs => (by cases hs), fun _ _ i hi => .inl ?_, fun hne => absurd rfl hne, ?_⟩
      · show s.task.currentOffset ≤ s.offsetOf i
        rw [hfirst]
        exact hstart i hi
      · rintro (he | he | he | ⟨he, -⟩) <;> cases he

/-- Looking for the next chunk. -/
theorem Followed.readNextChunk (heq : t' = s.task.readNextChunk files s.srcMeta)
    (hstate : s.task.state = .kReadChunk) (hskip : s.SkipsNone files) :
    Followed files { s with task := t' } := by
  have hinit : s.task.state ≠ .kInit := by rw [hstate]; simp
  have hback : ¬ GivesBack s.task.state := by rw [hstate]; simp [GivesBack]
  have hahead := h.ahead hinit hback
  subst heq
  revert hinv
  rw [CompactionTask.readNextChunk]
  split_ifs with hend hused
  · -- what is left waits in the write buffer
    intro hinv
    refine ⟨hinv, fun hs => (by cases hs), fun _ _ i hi => .inr ?_, h.buffered, ?_⟩
    · rcases hahead i hi with hle | hcopy
      · obtain ⟨hbehind, hin⟩ := hskip i hi hle
        exact absurd (hin.trans_le hend) (not_lt.mpr hbehind)
      · exact hcopy
    · rintro (he | he | he | ⟨he, -⟩) <;> cases he
  · intro hinv
    have hnone : ∀ i, ¬ s.RefersToSource i := fun i hi => by
      rcases hahead i hi with hle | ⟨g, hg, -⟩
      · obtain ⟨hbehind, hin⟩ := hskip i hi hle
        exact absurd (hin.trans_le hend) (not_lt.mpr hbehind)
      · exact hused (h.buffered (List.ne_nil_of_mem hg))
    exact ⟨hinv, fun hs => (by cases hs), fun _ _ i hi => absurd hi (hnone i), h.buffered,
      fun _ => hnone⟩
  · intro hinv
    refine ⟨hinv, fun hs => (by cases hstate.symm.trans hs), fun _ _ i hi => ?_, h.buffered, ?_⟩
    · exact (hahead i hi).imp (fun hle => (hskip i hi hle).1) id
    · rintro (he | he | he | ⟨he, -⟩) <;> cases hstate.symm.trans he

/-- The records of a chunk. -/
theorem Followed.processEntries (heq : t' = s.task.processEntries s.memIndex)
    (hstate : s.task.state = .kProcessEntries) (hchunk : s.AcceptsAll) :
    Followed files { s with task := t' } := by
  have hinit : s.task.state ≠ .kInit := by rw [hstate]; simp
  have hback : ¬ GivesBack s.task.state := by rw [hstate]; simp [GivesBack]
  have hahead := h.ahead hinit hback
  obtain ⟨u, hcollects, ⟨hdone, hcopied⟩ | ⟨hfull, hdone⟩⟩ :=
    processEntries_collects s.memIndex s.task
  · rw [hdone] at heq
    subst heq
    refine ⟨hinv, fun hs => (by cases hs), fun _ _ i hi => ?_,
      fun hne => hcollects.buffered h.buffered hne, ?_⟩
    · have hi' : s.RefersToSource i := by
        have hrefers := hi
        rw [RefersToSource, hcollects.srcFileId] at hrefers
        exact hrefers
      rcases hahead i hi' with hle | ⟨g, hg, hcovers⟩
      · rcases Nat.lt_or_ge (s.offsetOf i) (s.task.currentOffset + s.task.bytesRead) with
          hin | hpast
        · -- the record is accepted, and the index points to it
          obtain ⟨hfind, r, hr, hkey, hplain, hlies⟩ := hchunk i hi' hle hin
          have hmigrate : s.task.shouldMigrate s.memIndex r = true := by
            rw [shouldMigrate, findEntry, hkey, hfind, Option.map_some]
            dsimp only
            rw [hi'.live, hlies]
            rfl
          obtain ⟨g, hg, hgkey, hgfile, hgoffset⟩ := hcopied r hr hmigrate hplain
          refine .inr ⟨g, hg, hgkey.trans hkey, ?_⟩
          rw [hgfile, hgoffset]
          exact hlies
        · exact .inl hpast
      · exact .inr ⟨g, hcollects.mono g hg, hcovers⟩
    · rintro (he | he | he | ⟨he, -⟩) <;> cases he
  · rw [hdone] at heq
    subst heq
    refine ⟨hinv, fun hs => (by cases hfull.symm.trans hs), fun _ _ i hi => ?_,
      hcollects.buffered h.buffered, ?_⟩
    · have hi' : s.RefersToSource i := by
        have hrefers := hi
        rw [RefersToSource, hcollects.srcFileId] at hrefers
        exact hrefers
      rcases hahead i hi' with hle | ⟨g, hg, hcovers⟩
      · refine .inl ?_
        show t'.currentOffset ≤ _
        rw [hcollects.currentOffset]
        exact hle
      · exact .inr ⟨g, hcollects.mono g hg, hcovers⟩
    · rintro (he | he | he | ⟨he, -⟩) <;> cases hfull.symm.trans he

/-- The switch to the copies. -/
theorem Followed.updateIndices (heq : t' = (s.task.updateIndices s.memIndex).1)
    (hstate : s.task.state = .kUpdateIndices) (hswitch : s.SwitchesAll) :
    Followed files { s with
      task := t', memIndex := (s.task.updateIndices s.memIndex).2 } := by
  have hinit : s.task.state ≠ .kInit := by rw [hstate]; simp
  have hback : ¬ GivesBack s.task.state := by rw [hstate]; simp [GivesBack]
  have hahead := h.ahead hinit hback
  subst heq
  refine ⟨hinv, fun hs => (by cases hs), fun _ _ i hi => .inl ?_, fun hne => absurd rfl hne, ?_⟩
  · obtain ⟨hbefore, hsame, hno⟩ := of_refers_updateIndices hswitch.1 hi
    show s.task.currentOffset ≤
      ((s.memIndex.updateIndices s.task.migratedEntries).entries i).byteOffset
    rw [hsame]
    rcases hahead i hbefore with hle | ⟨g, hg, hcovers⟩
    · exact hle
    · have hfind := hswitch.2 i hbefore g hg hcovers
      rw [← hcovers.1] at hfind
      exact absurd hfind (hno g hg hcovers)
  · rintro (he | he | he | ⟨he, -⟩) <;> cases he

end Handlers

/-- A call of `step` that does something. -/
theorem Followed.step (h : Followed files s) (hio : s.task.ioPending = none)
    (hsees : s.StepSees files) (nowNs : UInt64)
    (hinv : CompactionTask.Inv files.writeOffset
      (s.task.step files s.srcMeta s.memIndex nowNs).1) :
    Followed files { s with
      task := (s.task.step files s.srcMeta s.memIndex nowNs).1
      memIndex := (s.task.step files s.srcMeta s.memIndex nowNs).2 } := by
  have hused := h.task.used
  revert hinv
  rw [CompactionTask.step, hio, Option.isSome_none, if_neg Bool.false_ne_true]
  cases hstate : s.task.state with
  | kInit => exact fun hinv => h.init hinv rfl hstate (hsees.start hstate)
  | kMarkCompacting =>
      intro hinv
      refine h.keep hinv rfl rfl rfl rfl ?_ ?_ ?_ ?_ <;>
        simp [CompactionTask.markCompacting, hstate, GivesBack, Ends]
  | kReadChunk => exact fun hinv => h.readNextChunk hinv rfl hstate (hsees.skip hstate)
  | kProcessEntries => exact fun hinv => h.processEntries hinv rfl hstate (hsees.chunk hstate)
  | kWriteChunk =>
      dsimp only
      rw [CompactionTask.writeChunk]
      split_ifs
      · intro hinv
        refine h.keep hinv rfl rfl rfl rfl ?_ ?_ ?_ ?_ <;> simp [hstate, GivesBack, Ends]
      · intro hinv
        refine h.keep hinv rfl rfl rfl rfl ?_ ?_ ?_ ?_ <;> simp [hstate, GivesBack, Ends]
  | kUpdateIndices => exact fun hinv => h.updateIndices hinv rfl hstate (hsees.switch hstate)
  | kFinalize =>
      intro hinv
      have hends : Ends s.task := .inl hstate
      refine h.keep hinv rfl rfl rfl rfl ?_ ?_ ?_ fun _ => hends
      · simp [hstate]
      · rw [CompactionTask.finalize]
        dsimp only
        split_ifs <;> simp
      · simp [hstate, GivesBack]
  | kMarkDeleted =>
      intro hinv
      have hends : Ends s.task := .inr (.inl hstate)
      refine h.keep hinv rfl rfl rfl rfl ?_ ?_ ?_ fun _ => hends <;>
        simp [CompactionTask.markDeleted, hstate, GivesBack]
  | kRetryWait =>
      have hretried := h.task.retried hstate
      dsimp only
      rw [CompactionTask.checkRetryTimeout]
      split_ifs
      · intro hinv
        have hends : s.task.retryTargetState = .kMarkDeleted → Ends s.task := fun htarget =>
          .inr (.inr (.inr ⟨hstate, htarget⟩))
        rcases hretried with htarget | htarget | htarget | htarget <;>
          refine h.keep hinv rfl rfl rfl rfl ?_ ?_ ?_ ?_ <;>
          simp [hstate, htarget, GivesBack, Ends]
      · exact fun _ => h
  | kRollback =>
      intro hinv
      refine followed_of_givesBack hinv ?_ ?_
      · rw [startRollback]
        dsimp only
        split_ifs
        · exact .inl hstate
        · exact .inr (.inl rfl)
      · rw [startRollback]
        dsimp only
        split_ifs <;> exact fun hne => absurd rfl hne
  | kRollbackMarkSealed =>
      exact fun hinv => followed_of_givesBack hinv (.inr (.inl hstate)) h.buffered
  | kWaitMarkComplete => exact absurd (by simp [Unused, hstate]) hused
  | kWaitReadComplete => exact absurd (by simp [Unused, hstate]) hused
  | kWaitWriteComplete => exact absurd (by simp [Unused, hstate]) hused
  | kWaitDeleteComplete => exact absurd (by simp [Unused, hstate]) hused
  | kWaitRollbackComplete => exact absurd (by simp [Unused, hstate]) hused
  | kFailed => exact fun _ => h
  | kDone => exact fun _ => h

/-- A failed operation is tried again or given up. -/
theorem Followed.handleIoError (h : Followed files s) {state : CompactionState}
    (hstate : s.task.state = state) (hretried : Retried state) (status : ℤ) (nowNs : UInt64)
    (hinv : CompactionTask.Inv files.writeOffset
      (({ s.task with ioPending := none } : CompactionTask).handleIoError state status nowNs)) :
    Followed files { s with
      task := ({ s.task with ioPending := none } : CompactionTask).handleIoError state status
        nowNs } := by
  have hinit : s.task.state ≠ .kInit := by
    rcases hretried with hr | hr | hr | hr <;> simp [hstate, hr]
  have hback : ¬ GivesBack s.task.state := by
    rcases hretried with hr | hr | hr | hr <;> simp [hstate, hr, GivesBack]
  have hends : state = .kMarkDeleted → Ends s.task := fun hs => .inr (.inl (hstate.trans hs))
  revert hinv
  rw [CompactionTask.handleIoError]
  dsimp only
  split_ifs
  · intro hinv
    refine h.keep hinv rfl rfl rfl rfl hinit ?_ (fun hb => absurd hb hback) ?_
    · simp
    · rintro (he | he | he | ⟨-, he⟩)
      · cases he
      · cases he
      · cases he
      · exact hends he
  · exact fun hinv => followed_of_givesBack hinv (.inl rfl) h.buffered

/-- A completion. -/
theorem Followed.complete (h : Followed files s) {status : ℤ} {nowNs : UInt64}
    {t' : CompactionTask} (hc : s.task.complete files status nowNs = some t')
    (hinv : CompactionTask.Inv files.writeOffset t') : Followed files { s with task := t' } := by
  obtain ⟨io, hio, rfl⟩ := Option.map_eq_some_iff.mp hc
  have hstate := h.task.pending io hio
  revert hinv
  cases io with
  | markCompacting =>
      dsimp only
      split_ifs
      · intro hinv
        refine h.keep hinv rfl rfl rfl rfl ?_ ?_ ?_ ?_ <;>
          simp [hstate, issuedIn, GivesBack, Ends]
      · exact fun hinv => h.handleIoError hstate (.inl rfl) status nowNs hinv
  | readChunk readSize =>
      dsimp only
      split_ifs
      · intro hinv
        refine h.keep hinv rfl rfl rfl rfl ?_ ?_ ?_ ?_ <;>
          simp [hstate, issuedIn, GivesBack, Ends]
      · exact fun hinv => h.handleIoError hstate (.inr (.inl rfl)) status nowNs hinv
  | writeChunk =>
      dsimp only
      split_ifs
      · intro hinv
        refine h.keep hinv rfl rfl rfl rfl ?_ ?_ ?_ ?_ <;>
          simp [hstate, issuedIn, GivesBack, Ends]
      · exact fun hinv => h.handleIoError hstate (.inr (.inr (.inl rfl))) status nowNs hinv
  | markDeleted =>
      dsimp only
      split_ifs
      · intro hinv
        have hlast := h.last (.inr (.inl hstate))
        exact ⟨hinv, fun hs => (by cases hs), fun _ _ i hi => absurd hi (hlast i),
          fun hne => absurd rfl hne, fun _ => hlast⟩
      · exact fun hinv => h.handleIoError hstate (.inr (.inr (.inr rfl))) status nowNs hinv
  | removeFile => exact fun hinv => followed_of_givesBack hinv (.inr (.inl rfl)) h.buffered
  | markSealed =>
      exact fun hinv => followed_of_givesBack hinv (.inr (.inr rfl)) fun hne => absurd rfl hne

/-- **The steps that see every live record they pass keep the invariant.** -/
theorem followed_step {event : CompactionTaskEvent n} (h : Followed files s)
    (hsees : Sees files s event) (hstep : (compactionTaskMachine n files).step s event = some s') :
    Followed files s' := by
  have hinv := inv_step hstep h.task
  cases event with
  | step nowNs =>
      obtain rfl := Option.some.inj hstep
      cases hio : s.task.ioPending with
      | none => exact h.step hio (hsees hio) nowNs hinv
      | some io =>
          have hsame : s.task.step files s.srcMeta s.memIndex nowNs = (s.task, s.memIndex) := by
            rw [CompactionTask.step, hio, Option.isSome_some, if_pos rfl]
          rw [hsame]
          exact h
  | complete status nowNs =>
      obtain ⟨task, htask, rfl⟩ := Option.map_eq_some_iff.mp hstep
      exact h.complete htask hinv
  | others memIndex srcMeta =>
      obtain rfl := Option.some.inj hstep
      obtain ⟨op, hop, heq⟩ := hsees
      exact h.others hop heq

/-- A call of `step` keeps the source of the task. -/
theorem srcFileId_task_step (t : CompactionTask) (srcMeta : PageTracking) (memIndex : MemIndex n)
    (nowNs : UInt64) : (t.step files srcMeta memIndex nowNs).1.srcFileId = t.srcFileId := by
  rw [CompactionTask.step]
  split_ifs
  · rfl
  · cases t.state with
    | kInit =>
        dsimp only
        rw [CompactionTask.init]
        split_ifs
        · rfl
        · rfl
        · split <;> rfl
    | kReadChunk =>
        dsimp only
        rw [CompactionTask.readNextChunk]
        split_ifs <;> rfl
    | kProcessEntries =>
        obtain ⟨u, hcollects, ⟨heq, -⟩ | ⟨-, heq⟩⟩ := processEntries_collects memIndex t
        · dsimp only
          rw [heq]
          exact hcollects.srcFileId
        · dsimp only
          rw [heq]
          exact hcollects.srcFileId
    | kWriteChunk =>
        dsimp only
        rw [CompactionTask.writeChunk]
        split_ifs <;> rfl
    | kRetryWait =>
        dsimp only
        rw [CompactionTask.checkRetryTimeout]
        split_ifs <;> rfl
    | kRollback =>
        dsimp only
        rw [startRollback]
        dsimp only
        split_ifs <;> rfl
    | _ => rfl

/-- A completion keeps the source of the task. -/
theorem srcFileId_complete {t t' : CompactionTask} {status : ℤ} {nowNs : UInt64}
    (hc : t.complete files status nowNs = some t') : t'.srcFileId = t.srcFileId := by
  obtain ⟨io, -, rfl⟩ := Option.map_eq_some_iff.mp hc
  have herror : ∀ (u : CompactionTask) (state : CompactionState),
      (u.handleIoError state status nowNs).srcFileId = u.srcFileId := by
    intro u state
    rw [CompactionTask.handleIoError]
    dsimp only
    split_ifs <;> rfl
  cases io with
  | markCompacting =>
      dsimp only
      split_ifs
      · rfl
      · exact herror _ _
  | readChunk readSize =>
      dsimp only
      split_ifs
      · rfl
      · exact herror _ _
  | writeChunk =>
      dsimp only
      split_ifs
      · rfl
      · exact herror _ _
  | markDeleted =>
      dsimp only
      split_ifs
      · rfl
      · exact herror _ _
  | removeFile => rfl
  | markSealed => rfl

/-- A task keeps its source. -/
theorem srcFileId_step {event : CompactionTaskEvent n}
    (hstep : (compactionTaskMachine n files).step s event = some s') :
    s'.task.srcFileId = s.task.srcFileId := by
  cases event with
  | step nowNs =>
      obtain rfl := Option.some.inj hstep
      exact srcFileId_task_step ..
  | complete status nowNs =>
      obtain ⟨task, htask, rfl⟩ := Option.map_eq_some_iff.mp hstep
      exact srcFileId_complete htask
  | others memIndex srcMeta =>
      obtain rfl := Option.some.inj hstep
      rfl

/-! ### Runs -/

/-- **No entry is left behind**: in a run whose steps see every live record they pass, no live
entry refers to the source of a task that is done. -/
theorem none_left {srcFileId : UInt16} {memIndex : MemIndex n} {srcMeta : PageTracking}
    {events : List (CompactionTaskEvent n)}
    (hrun : (compactionTaskMachine n files).run (initial srcFileId memIndex srcMeta) events =
      some s)
    (hsees : (compactionTaskMachine n files).Meets (Sees files)
      (initial srcFileId memIndex srcMeta) events)
    (hdone : s.task.state = .kDone) (i : Fin (2 ^ n)) : ¬ s.memIndex.Refers srcFileId i := by
  have hstart : Followed files (initial srcFileId memIndex srcMeta) := by
    refine ⟨.idle rfl (by simp [initial, create, Unused]) (by simp [initial, create])
      (by simp [initial, create]), fun _ => rfl, fun hno => absurd rfl hno,
      fun hne => absurd rfl hne, ?_⟩
    rintro (he | he | he | ⟨he, -⟩) <;> cases he
  have hinv := (compactionTaskMachine n files).run_invariant
    (fun s => Followed files s ∧ s.task.srcFileId = srcFileId) ?_ ⟨hstart, rfl⟩ hsees hrun
  · have hlast := hinv.1.last (.inr (.inr (.inl hdone))) i
    rwa [RefersToSource, hinv.2] at hlast
  · rintro s event s' ⟨hs, hsrc⟩ hsees hstep
    exact ⟨followed_step hs hsees hstep, (srcFileId_step hstep).trans hsrc⟩

/-! ### Files with one record -/

/-- A file without a bitmap. -/
def noBitmap : PageTracking := ⟨⟨1, .kSealed, 1, 1, 4096, 4096⟩, none⟩

/-- The entry of a record at page 1 of file 1. -/
def entryAtPageOne (key : UInt64) (pageCount : UInt16) : MemIndexEntry :=
  ⟨key, 1, 1, false, 1, pageCount, 0⟩

/-- File 1 with a record at page 1. -/
def fileOfRecord (record : List UInt8) : CompactionFiles where
  dmaBuffers := true
  sourceKnown := true
  newFile := some 2
  image := ByteMemory.zero.write kPageSize record
  writeOffset := kPageSize + record.length

/-- A task behind `init` that has copied nothing. -/
def copiedNothing (state : CompactionState) (ioPending : Option CompactionIo)
    (srcState : Option FileState) (currentOffset : ℕ) (readBuffer : List UInt8) :
    CompactionTask :=
  { create 1 with
    destFileId := 2
    dest := some (.kActive, sizeofDataFileHeader)
    destOffset := sizeofDataFileHeader
    state := state
    ioPending := ioPending
    srcState := srcState
    currentOffset := currentOffset
    readBuffer := readBuffer }

/-- Such a task on its way through the file. -/
def passing (m : MemIndex n) (state : CompactionState) (ioPending : Option CompactionIo)
    (currentOffset : ℕ) (readBuffer : List UInt8) : CompactionWorld n :=
  ⟨copiedNothing state ioPending (some .kCompacting) currentOffset readBuffer, m, noBitmap⟩

section Passing

variable {record readBuffer : List UInt8} {m : MemIndex n} {currentOffset readSize : ℕ}

/-- A chunk is read. -/
theorem passing_read (hlt : currentOffset < (fileOfRecord record).writeOffset)
    (hsize : alignUp (min kChunkSize ((fileOfRecord record).writeOffset - currentOffset))
      kPageSize = readSize) :
    (compactionTaskMachine n (fileOfRecord record)).step
      (passing m .kReadChunk none currentOffset readBuffer) (.step 0) =
        some (passing m .kReadChunk (some (.readChunk readSize)) currentOffset readBuffer) := by
  show some (CompactionWorld.mk (CompactionTask.readNextChunk _ _ noBitmap) m noBitmap) = _
  rw [readNextChunk_of_lt rfl hlt, ← hsize]
  rfl

/-- The chunk holds bytes of the record. -/
theorem passing_complete (start : ℕ) (hsize : start + readSize ≤ record.length) :
    (compactionTaskMachine n (fileOfRecord record)).step
      (passing m .kReadChunk (some (.readChunk readSize)) (kPageSize + start) readBuffer)
        (.complete 0 0) =
      some (passing m .kProcessEntries none (kPageSize + start) (slice record start readSize)) := by
  have hread : (fileOfRecord record).image.read (kPageSize + start) readSize =
      slice record start readSize := ByteMemory.read_write_within _ hsize
  rw [← hread]
  rfl

/-- Nothing in it is copied. -/
theorem passing_process (hnil : chunkRecords readBuffer 0 = []) :
    (compactionTaskMachine n (fileOfRecord record)).step
      (passing m .kProcessEntries none currentOffset readBuffer) (.step 0) =
        some (passing m .kReadChunk none (currentOffset + readBuffer.length) readBuffer) := by
  show some (CompactionWorld.mk (CompactionTask.processEntries _ m) m noBitmap) = _
  rw [processEntries_of_nil hnil]
  rfl

/-- Behind the end of the source there is nothing to write. -/
theorem passing_end (hend : (fileOfRecord record).writeOffset ≤ currentOffset) :
    (compactionTaskMachine n (fileOfRecord record)).step
      (passing m .kReadChunk none currentOffset readBuffer) (.step 0) =
        some (passing m .kFinalize none currentOffset readBuffer) := by
  show some (CompactionWorld.mk (CompactionTask.readNextChunk _ _ noBitmap) m noBitmap) = _
  rw [readNextChunk_of_end rfl hend]
  rfl

end Passing

/-! ### A record that is copied -/

section OneCopied

variable {m : MemIndex n} {record : List UInt8} {key : UInt64} {i : Fin (2 ^ n)}

/-- What a copy of the record at page 1 says. -/
def copyOfPageOne (key : UInt64) : MigratedEntry where
  key := key
  oldFileId := 1
  oldOffsetIndex := 1
  newFileId := 2
  newOffsetIndex := 1
  pageCount := 1
  sequence := 1

/-- The task that has copied it. -/
def copiedOne (record : List UInt8) (key : UInt64) (state : CompactionState)
    (ioPending : Option CompactionIo) : CompactionTask :=
  { copiedNothing state ioPending (some .kCompacting) (2 * kPageSize) record with
    entriesProcessed := 1
    entriesMigrated := 1
    migratedEntries := [copyOfPageOne key]
    writeBuffer := record }

/-- What is known of the index: the key is found, in a slot that refers to file 1, and whatever
refers to file 1 is the entry of a record of the key at page 1 and is found. -/
structure PageOneOnly (m : MemIndex n) (key : UInt64) : Prop where
  found : ∃ i, m.find key = some i ∧ m.Refers 1 i
  only : ∀ i, m.Refers 1 i → m.find key = some i ∧ (m.entries i).key = key ∧
    (m.entries i).offsetIndex = 1

theorem pageOneOnly_upsert_fresh {key : UInt64} {e : MemIndexEntry} (hkey : e.key = key)
    (hlive : e.deleted = false) (hfile : e.fileId = BitVec.ofNat 10 (1 : UInt16).toNat)
    (hoffset : e.offsetIndex = 1) :
    PageOneOnly ((fresh n).upsert key e).1 key := by
  have hfind : ((fresh n).upsert key e).1.find key = some (home n key) :=
    find_upsert_fresh hkey hlive
  refine ⟨⟨_, hfind, refers_upsert_fresh hlive hfile⟩, fun i hi => ?_⟩
  obtain ⟨rfl, hentry⟩ := of_refers_upsert_fresh hi
  have hsame : (tagged key e).offsetIndex = e.offsetIndex := by
    cases e
    rfl
  rw [hentry, tagged_key, hsame]
  exact ⟨hfind, hkey, hoffset⟩

theorem PageOneOnly.byteOffset (hm : PageOneOnly m key) (h : m.Refers 1 i) :
    (m.entries i).byteOffset = kPageSize := by
  rw [MemIndexEntry.byteOffset, (hm.only i h).2.2]
  rfl

theorem PageOneOnly.liesAt (hm : PageOneOnly m key) (h : m.Refers 1 i) :
    (m.entries i).liesAt 1 (UInt32.ofNat ((kPageSize + 0) / kPageSize)) = true := by
  rw [MemIndexEntry.liesAt, h.file, (hm.only i h).2.2]
  decide

/-- The lookup of what refers to the source. -/
theorem PageOneOnly.find_key (hm : PageOneOnly m key) (h : m.Refers 1 i) :
    m.find (m.entries i).key = some i := by
  obtain ⟨hfind, hkey, -⟩ := hm.only i h
  rw [hkey, hfind]

/-- A step in a state in which nothing is asked. -/
theorem sees_step (hinit : s.task.state ≠ .kInit) (hread : s.task.state ≠ .kReadChunk)
    (hprocess : s.task.state ≠ .kProcessEntries) (hupdate : s.task.state ≠ .kUpdateIndices) :
    Sees files s (.step 0) := fun _ =>
  ⟨fun h => absurd h hinit, fun h => absurd h hread, fun h => absurd h hprocess,
    fun h => absurd h hupdate⟩

variable (hm : PageOneOnly m key)

include hm

/-- What refers to the source lies at page 1. -/
theorem PageOneOnly.offsetOf (hindex : s.memIndex = m) (hsrc : s.task.srcFileId = 1)
    (h : s.RefersToSource i) : s.offsetOf i = kPageSize := by
  rw [RefersToSource, hindex, hsrc] at h
  rw [CompactionWorld.offsetOf, hindex, hm.byteOffset h]

/-- The walk over the page accepts the record. -/
theorem PageOneOnly.acceptsAll (hone : chunkRecords record 0 = [⟨0, kPageSize, key, 1, false⟩]) :
    (passing m .kProcessEntries none kPageSize record).AcceptsAll := by
  intro i (hi : m.Refers 1 i) _ _
  have hmem : ⟨0, kPageSize, key, 1, false⟩ ∈ chunkRecords record 0 := by
    rw [hone]
    exact List.mem_cons_self
  exact ⟨hm.find_key hi, _, hmem, (hm.only i hi).2.1.symm, rfl, hm.liesAt hi⟩

/-- It is copied. -/
theorem PageOneOnly.process (hlen : record.length = kPageSize)
    (hone : chunkRecords record 0 = [⟨0, kPageSize, key, 1, false⟩]) :
    (copiedNothing .kProcessEntries none (some .kCompacting) kPageSize record).processEntries m =
      copiedOne record key .kReadChunk none := by
  obtain ⟨i, hfind, hi⟩ := hm.found
  have hpage : UInt32.ofNat ((kPageSize + 0) / kPageSize) = 1 := by decide
  have hcount : UInt16.ofNat (kPageSize / kPageSize) = 1 := by decide
  have hmigrate : (copiedNothing .kProcessEntries none (some .kCompacting) kPageSize
      record).shouldMigrate m ⟨0, kPageSize, key, 1, false⟩ = true := by
    rw [shouldMigrate, findEntry, hfind, Option.map_some]
    dsimp only
    rw [hi.live]
    exact hm.liesAt hi
  have hslice : slice record 0 kPageSize = record := by
    rw [slice, List.drop_zero, ← hlen, List.take_length]
  have hend : kPageSize + record.length = 2 * kPageSize := by rw [hlen, Nat.two_mul]
  have hroom : 0 + kPageSize ≤ kChunkSize := by decide
  rw [processEntries_of_one hone hmigrate rfl hroom, copiedOne]
  simp only [copiedNothing, create, bytesRead, writeBufferUsed, sizeofDataFileHeader,
    List.nil_append, List.length_nil, hslice, hend, hpage, hcount, copyOfPageOne]

/-- From the switch of the index the task comes to an end. -/
theorem PageOneOnly.leads_of_written (hend : (fileOfRecord record).writeOffset = 2 * kPageSize) :
    (compactionTaskMachine n (fileOfRecord record)).Leads (Sees (fileOfRecord record))
      (fun s => s.task.state = .kDone)
      ⟨copiedOne record key .kUpdateIndices none, m, noBitmap⟩ := by
  have hnew : ∀ g ∈ [copyOfPageOne key],
      BitVec.ofNat 10 g.newFileId.toNat ≠ BitVec.ofNat 10 (1 : UInt16).toNat := fun g hg => by
    have hdest : g.newFileId = 2 := by rw [List.mem_singleton.mp hg, copyOfPageOne]
    rw [hdest]
    decide
  refine .next _ (.step 0) ⟨((copiedOne record key .kUpdateIndices none).updateIndices m).1,
    m.updateIndices [copyOfPageOne key], noBitmap⟩
    (fun _ => ⟨nofun, nofun, nofun, fun _ => ⟨hnew, fun i hi _ _ _ => hm.find_key hi⟩⟩) rfl ?_
  -- nothing refers to the source any more
  have hskips : SkipsNone (fileOfRecord record)
      ⟨((copiedOne record key .kUpdateIndices none).updateIndices m).1,
        m.updateIndices [copyOfPageOne key], noBitmap⟩ := by
    intro i (hi : (m.updateIndices [copyOfPageOne key]).Refers 1 i) hle
    obtain ⟨hbefore, hsame, -⟩ := of_refers_updateIndices hnew hi
    have hoffset := hm.byteOffset hbefore
    rw [← hsame] at hoffset
    have hbehind : 2 * kPageSize ≤ kPageSize := hle.trans hoffset.le
    exact absurd hbehind (by decide)
  refine .next _ (.step 0) ⟨{ ((copiedOne record key .kUpdateIndices none).updateIndices m).1 with
      state := .kFinalize }, m.updateIndices [copyOfPageOne key], noBitmap⟩
    (fun _ => ⟨nofun, fun _ => hskips, nofun, nofun⟩) ?_ ?_
  · show some (CompactionWorld.mk (CompactionTask.readNextChunk _ _ noBitmap) _ noBitmap) = _
    rw [readNextChunk_of_end rfl hend.le]
    rfl
  refine .next _ (.step 0) _ (sees_step nofun nofun nofun nofun) rfl ?_
  refine .next _ (.step 0) _ (sees_step nofun nofun nofun nofun) rfl ?_
  refine .next _ (.complete 0 0) _ trivial rfl ?_
  exact .here _ rfl

/-- From the copied record the task comes to the switch of the index. -/
theorem PageOneOnly.leads_of_copied (hlen : record.length = kPageSize)
    (hend : (fileOfRecord record).writeOffset = 2 * kPageSize) :
    (compactionTaskMachine n (fileOfRecord record)).Leads (Sees (fileOfRecord record))
      (fun s => s.task.state = .kDone) ⟨copiedOne record key .kReadChunk none, m, noBitmap⟩ := by
  have hused : 0 < record.length := by
    rw [hlen]
    decide
  have hskips : SkipsNone (fileOfRecord record)
      ⟨copiedOne record key .kReadChunk none, m, noBitmap⟩ := by
    intro i hi hle
    rw [hm.offsetOf rfl rfl hi] at hle
    have hbehind : 2 * kPageSize ≤ kPageSize := hle
    exact absurd hbehind (by decide)
  refine .next _ (.step 0) ⟨copiedOne record key .kWriteChunk none, m, noBitmap⟩
    (fun _ => ⟨nofun, fun _ => hskips, nofun, nofun⟩) ?_ ?_
  · show some (CompactionWorld.mk (CompactionTask.readNextChunk _ _ noBitmap) m noBitmap) = _
    have hwrites : 0 < (copiedOne record key .kReadChunk none).writeBufferUsed := hused
    rw [readNextChunk_of_end rfl hend.le, if_pos hwrites]
    rfl
  refine .next _ (.step 0) ⟨copiedOne record key .kWriteChunk (some .writeChunk), m, noBitmap⟩
    (sees_step nofun nofun nofun nofun) ?_ ?_
  · show some (CompactionWorld.mk (CompactionTask.writeChunk _) m noBitmap) = _
    have hwrites : (copiedOne record key .kWriteChunk none).writeBufferUsed ≠ 0 := hused.ne'
    rw [writeChunk, if_neg hwrites]
    rfl
  exact .next _ (.complete 0 0) _ trivial rfl (hm.leads_of_written hend)

/-- A file with one record of one page is compacted. -/
theorem PageOneOnly.leads (hlen : record.length = kPageSize)
    (hone : chunkRecords record 0 = [⟨0, kPageSize, key, 1, false⟩]) :
    (compactionTaskMachine n (fileOfRecord record)).Leads (Sees (fileOfRecord record))
      (fun s => s.task.state = .kDone) (initial 1 m noBitmap) := by
  have hend : (fileOfRecord record).writeOffset = 2 * kPageSize := by
    rw [fileOfRecord, hlen, Nat.two_mul]
  have hslice : slice record 0 kPageSize = record := by
    rw [slice, List.drop_zero, ← hlen, List.take_length]
  have hskips : SkipsNone (fileOfRecord record) (passing m .kReadChunk none kPageSize []) := by
    intro i hi _
    have hbehind : kPageSize < 2 * kPageSize := by decide
    rw [PageTracking.skipInvalidPages_of_none rfl, hend, hm.offsetOf rfl rfl hi]
    exact ⟨le_rfl, hbehind⟩
  refine .next _ (.step 0) ⟨copiedNothing .kMarkCompacting none none kPageSize [], m, noBitmap⟩
    (fun _ => ⟨fun _ i hi => (hm.offsetOf rfl rfl hi).ge, nofun, nofun, nofun⟩) rfl ?_
  refine .next _ (.step 0) (passing m .kMarkCompacting (some .markCompacting) kPageSize [])
    (sees_step nofun nofun nofun nofun) rfl ?_
  refine .next _ (.complete 0 0) (passing m .kReadChunk none kPageSize []) trivial rfl ?_
  refine .next _ (.step 0) (passing m .kReadChunk (some (.readChunk kPageSize)) kPageSize [])
    (fun _ => ⟨nofun, fun _ => hskips, nofun, nofun⟩) (passing_read ?_ ?_) ?_
  · rw [hend]
    decide
  · rw [hend]
    decide
  refine .next _ (.complete 0 0) _ trivial (passing_complete 0 ?_) ?_
  · rw [hlen]
    decide
  rw [hslice]
  refine .next _ (.step 0) ⟨copiedOne record key .kReadChunk none, m, noBitmap⟩
    (fun _ => ⟨nofun, nofun, fun _ => hm.acceptsAll hone, nofun⟩) ?_ (hm.leads_of_copied hlen hend)
  show some (CompactionWorld.mk (CompactionTask.processEntries _ m) m noBitmap) = _
  exact congrArg (fun t => some (CompactionWorld.mk t m noBitmap)) (hm.process hlen hone)

end OneCopied

/-- The record of a value of one byte. -/
def smallRecord : List UInt8 := buildEntryInplace 7 [1] 1 false

/-- One record is copied, and no entry is left behind. -/
theorem none_left_one_record : ∃ events s,
    ((fresh 3).upsert 7 (entryAtPageOne 7 1)).1.Refers 1 (home 3 7) ∧
    (compactionTaskMachine 3 (fileOfRecord smallRecord)).run
      (initial 1 ((fresh 3).upsert 7 (entryAtPageOne 7 1)).1 noBitmap) events = some s ∧
    s.task.state = .kDone ∧ ∀ i, ¬ s.memIndex.Refers 1 i := by
  have hlen : smallRecord.length = kPageSize := by
    rw [smallRecord, length_buildEntryInplace]
    decide
  have hone : chunkRecords smallRecord 0 = [⟨0, kPageSize, 7, 1, false⟩] :=
    chunkRecords_buildEntryInplace 7 1 false (by decide)
  obtain ⟨events, s, hmeets, hrun, hdone⟩ := (pageOneOnly_upsert_fresh (e := entryAtPageOne 7 1) rfl rfl
    rfl rfl).leads hlen hone
  exact ⟨events, s, refers_upsert_fresh rfl rfl, hrun, hdone,
    fun i => none_left hrun hmeets hdone i⟩

/-! ### A record longer than a chunk -/

/-- A value of 1 MB. -/
def largeValue : List UInt8 := List.replicate (2 ^ 20) 0

/-- Its record. -/
def largeRecord : List UInt8 := buildEntryInplace 7 largeValue 1 false

theorem length_largeValue : largeValue.length = 2 ^ 20 := List.length_replicate

theorem length_largeRecord : largeRecord.length = 2 ^ 20 + 2 ^ 12 := by
  rw [largeRecord, length_buildEntryInplace, length_largeValue]
  decide

/-- The bytes of a value of zeros. -/
theorem slice_of_zeros (key : UInt64) (seq : UInt32) (tomb : Bool) {valueLen offset len : ℕ}
    (h : recordHeaderSize ≤ offset) (hend : offset + len ≤ recordHeaderSize + valueLen) :
    slice (buildEntryInplace key (List.replicate valueLen 0) seq tomb) offset len =
      List.replicate len 0 := by
  have hvalue := slice_buildEntryInplace key (List.replicate valueLen 0) seq tomb
  rw [List.length_replicate] at hvalue
  have hslice : slice (buildEntryInplace key (List.replicate valueLen 0) seq tomb) offset len =
      slice (slice (buildEntryInplace key (List.replicate valueLen 0) seq tomb) recordHeaderSize
        valueLen) (offset - recordHeaderSize) len := by
    simp only [slice, List.drop_take, List.drop_drop, List.take_take]
    rw [Nat.min_eq_left (by omega), Nat.add_sub_cancel' h]
  rw [hslice, hvalue, slice, List.drop_replicate, List.take_replicate, Nat.min_eq_left (by omega)]

/-- On the pages behind its first one no entry begins. -/
theorem validateEntry_behind {start len page : ℕ} (hstart : kPageSize ∣ start)
    (hend : start + len ≤ 2 ^ 20 + 2 ^ 12) (hbehind : 0 < start + page * kPageSize) :
    validateEntry (slice largeRecord start len) (page * kPageSize)
      ((slice largeRecord start len).length - page * kPageSize) = false := by
  have hlen : (slice largeRecord start len).length = len := by
    rw [slice, List.length_take, List.length_drop, length_largeRecord]
    omega
  rw [validateEntry, hlen]
  split_ifs with hshort hmagic
  · rfl
  · rfl
  · refine absurd ?_ hmagic
    obtain ⟨k, rfl⟩ := hstart
    rw [sizeofEntryHeader] at hshort
    rw [kPageSize] at *
    have hzeros : slice largeRecord (4096 * k + page * 4096) 4 = List.replicate 4 0 :=
      slice_of_zeros 7 1 false (by rw [recordHeaderSize, sizeofEntryHeader]; omega)
        (by rw [recordHeaderSize, sizeofEntryHeader]; omega)
    have hfield : fieldAt (slice largeRecord (4096 * k) len) (page * 4096) 4 = 0 := by
      rw [slice] at hzeros
      rw [fieldAt, slice, List.drop_take, List.take_take, List.drop_drop,
        Nat.min_eq_left (by omega)]
      rw [hzeros]
      rfl
    have hmagic : (readHeader (slice largeRecord (4096 * k) len) (page * 4096)).magic = 0 := by
      rw [readHeader, readU32, hfield]
      rfl
    rw [hmagic]
    decide

/-- Its first page is the beginning of an entry that is longer than a chunk. -/
theorem validateEntry_front : validateEntry (slice largeRecord 0 kChunkSize) 0
    ((slice largeRecord 0 kChunkSize).length - 0) = false := by
  have hlen : (slice largeRecord 0 kChunkSize).length = kChunkSize := by
    rw [slice, List.length_take, List.length_drop, length_largeRecord, kChunkSize]
    rfl
  have hsize : (readValueLen (slice largeRecord 0 kChunkSize) 0).toNat = 2 ^ 20 := by
    rw [slice, List.drop_zero, (readers_take largeRecord (by decide)).2.2, largeRecord,
      readValueLen_buildEntryInplace _ _ _ _ (by rw [length_largeValue]; decide),
      length_largeValue]
  rw [validateEntry, hlen, hsize]
  split_ifs
  · rfl
  · rfl
  · rfl

/-- **The walk over its chunks accepts nothing.** -/
theorem chunkRecords_largeRecord :
    chunkRecords (slice largeRecord 0 kChunkSize) 0 = [] ∧
      chunkRecords (slice largeRecord kChunkSize kPageSize) 0 = [] := by
  have hpage : kPageSize ∣ kChunkSize := by decide
  refine ⟨chunkRecords_eq_nil (fun page => ?_) 0, chunkRecords_eq_nil (fun page => ?_) 0⟩
  · cases page with
    | zero =>
        rw [Nat.zero_mul]
        exact validateEntry_front
    | succ page =>
        refine validateEntry_behind (dvd_zero _) (by decide) ?_
        rw [kPageSize]
        omega
  · refine validateEntry_behind hpage (by decide) ?_
    rw [kChunkSize]
    omega

/-- A file of two chunks in which no record is found leaves the index as it is. -/
theorem leads_of_no_record {m : MemIndex n} {record : List UInt8}
    (hlen : record.length = kChunkSize + kPageSize)
    (hfirst : chunkRecords (slice record 0 kChunkSize) 0 = [])
    (hsecond : chunkRecords (slice record kChunkSize kPageSize) 0 = []) :
    (compactionTaskMachine n (fileOfRecord record)).Leads AppendsElsewhere
      (fun s => s.task.state = .kDone ∧ s.memIndex = m) (initial 1 m noBitmap) := by
  have hend : (fileOfRecord record).writeOffset = kPageSize + (kChunkSize + kPageSize) :=
    congrArg (kPageSize + ·) hlen
  have hslice : ∀ {start len}, start + len ≤ record.length →
      (slice record start len).length = len := fun h => by
    rw [slice, List.length_take, List.length_drop]
    omega
  refine .next _ (.step 0) ⟨copiedNothing .kMarkCompacting none none kPageSize [], m, noBitmap⟩
    trivial rfl ?_
  refine .next _ (.step 0) (passing m .kMarkCompacting (some .markCompacting) kPageSize [])
    trivial rfl ?_
  refine .next _ (.complete 0 0) (passing m .kReadChunk none kPageSize []) trivial rfl ?_
  -- a chunk from the beginning of the record
  refine .next _ (.step 0) (passing m .kReadChunk (some (.readChunk kChunkSize)) kPageSize [])
    trivial (passing_read ?_ ?_) ?_
  · rw [hend]
    decide
  · rw [hend]
    decide
  refine .next _ (.complete 0 0) _ trivial (passing_complete 0 ?_) ?_
  · rw [hlen]
    decide
  refine .next _ (.step 0) _ trivial (passing_process hfirst) ?_
  rw [hslice (by rw [hlen]; decide)]
  -- its last page
  refine .next _ (.step 0) (passing m .kReadChunk (some (.readChunk kPageSize))
    (kPageSize + kChunkSize) (slice record 0 kChunkSize)) trivial (passing_read ?_ ?_) ?_
  · rw [hend]
    decide
  · rw [hend]
    decide
  refine .next _ (.complete 0 0) _ trivial (passing_complete kChunkSize hlen.ge) ?_
  refine .next _ (.step 0) _ trivial (passing_process hsecond) ?_
  rw [hslice hlen.ge]
  -- the end of the source
  refine .next _ (.step 0) _ trivial (passing_end ?_) ?_
  · rw [hend]
    decide
  refine .next _ (.step 0) _ trivial rfl ?_
  refine .next _ (.step 0) _ trivial rfl ?_
  refine .next _ (.complete 0 0) _ trivial rfl ?_
  exact .here _ ⟨rfl, rfl⟩

/-- **A large record is left behind**: neither of the two chunks of its file is accepted as a
record, and its entry refers to the file that is marked deleted. -/
theorem large_record_left : ∃ events s,
    (compactionTaskMachine 3 (fileOfRecord largeRecord)).Meets AppendsElsewhere
      (initial 1 ((fresh 3).upsert 7 (entryAtPageOne 7 257)).1 noBitmap) events ∧
    (compactionTaskMachine 3 (fileOfRecord largeRecord)).run
      (initial 1 ((fresh 3).upsert 7 (entryAtPageOne 7 257)).1 noBitmap) events = some s ∧
    s.task.state = .kDone ∧ s.memIndex.Refers 1 (home 3 7) := by
  obtain ⟨hfirst, hsecond⟩ := chunkRecords_largeRecord
  obtain ⟨events, s, hmeets, hrun, hdone, hsame⟩ :=
    leads_of_no_record (m := ((fresh 3).upsert 7 (entryAtPageOne 7 257)).1) length_largeRecord
      hfirst hsecond
  refine ⟨events, s, hmeets, hrun, hdone, ?_⟩
  rw [hsame, upsert_fresh]
  exact ⟨by decide +kernel, by decide +kernel, by decide +kernel⟩

end CompactionWorld

end SpdkKv
