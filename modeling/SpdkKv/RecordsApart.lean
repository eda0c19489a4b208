import SpdkKv.FileExtents

/-!
# Records Do Not Overlap

An asynchronous write takes its space when it is submitted; `put` and `del` read the offset
of the active file, wait for their IO, and take the space afterwards. Whatever is submitted
to the file in between gets the same place. As long as nothing is, no two records share a
byte.

## Main results

* `FileStore.apart_act`: every act that meets the conditions keeps the records apart.
* `EngineSystem.records_disjoint`: **in every run of the engine whose events meet the
  conditions, the ranges of the records that were reported successful are disjoint**.
-/

namespace SpdkKv

/-! ### Disjoint ranges -/

theorem BlobRange.Disjoint.symm {r q : BlobRange} (h : r.Disjoint q) : q.Disjoint r :=
  fun hb => (h hb.symm).symm

/-- Parts of a range are disjoint from what the range is disjoint from. -/
theorem BlobRange.Disjoint.of_splits {r q p : BlobRange} {ranges : List BlobRange}
    (h : r.Disjoint q) (hsplits : r.Splits ranges) (hp : p ∈ ranges) : p.Disjoint q := by
  obtain ⟨hblob, hoffset, hstop⟩ := hsplits.1 p hp
  intro heq
  rcases h (hblob.symm.trans heq) with hle | hle
  · exact .inl (hstop.trans hle)
  · exact .inr (hle.trans hoffset)

theorem pairwise_disjoint_of_perm {l l' : List BlobRange} (hperm : l.Perm l')
    (h : l.Pairwise BlobRange.Disjoint) : l'.Pairwise BlobRange.Disjoint :=
  (hperm.pairwise_iff fun h => h.symm).mp h

namespace FileStore

variable {W : Type}

/-! ### The invariant -/

/-- The ranges of the records, the writes in flight and the calls that wait. -/
def regions (self : FileStore W) : List BlobRange :=
  self.used ++ self.waits.map FileWait.range

/-- No two of them share a byte. -/
def Apart (st : FileStore W) : Prop := st.regions.Pairwise BlobRange.Disjoint

/-- The condition for the places: a write is submitted to a file only while no `put` or `del`
that goes to the same blob waits. -/
def WaitsAlone (st : FileStore W) : FileAct W → Prop
  | .submit _ _ => ∀ i ∈ st.space.activeIndex,
      ∀ w ∈ st.waits, w.file.blobId ≠ (st.space.fileAt i).blobId
  | .drain _ _ => ∀ i ∈ st.space.activeIndex,
      ∀ w ∈ st.waits, w.file.blobId ≠ (st.space.fileAt i).blobId
  | .wait _ => ∀ i ∈ st.space.activeIndex,
      ∀ w ∈ st.waits, w.file.blobId ≠ (st.space.fileAt i).blobId
  | _ => True

instance decidableWaitsAlone (st : FileStore W) (act : FileAct W) :
    Decidable (st.WaitsAlone act) :=
  match act with
  | .submit _ _ => inferInstanceAs (Decidable (∀ i ∈ st.space.activeIndex, ∀ w ∈ _, _ ≠ _))
  | .drain _ _ => inferInstanceAs (Decidable (∀ i ∈ st.space.activeIndex, ∀ w ∈ _, _ ≠ _))
  | .wait _ => inferInstanceAs (Decidable (∀ i ∈ st.space.activeIndex, ∀ w ∈ _, _ ≠ _))
  | .mark _ _ | .flags _ _ _ | .complete _ _ | .endWait _ | .beginAsync | .endAsync _
  | .beginAlloc | .endAlloc _ | .failAlloc | .migrate _ _ _ | .discard _
  | .updateSuperblock _ _ _ | .superblockWritten _ | .reopen _ => .isTrue trivial

namespace Apart

variable {st st' : FileStore W}

/-- The regions are a part of what they were. -/
theorem of_sublist (h : st.Apart) (hsub : st'.regions.Sublist st.regions) : st'.Apart :=
  h.sublist hsub

/-- A further range lies behind what its file already holds, and no call waits for the blob
of the file. -/
theorem add (h : st.Apart) (hext : st.Extents) {i : ℕ} (hi : i ∈ st.current)
    (hwaits : ∀ w ∈ st.waits, w.file.blobId ≠ (st.space.fileAt i).blobId) (size : ℕ)
    (hperm : st'.regions.Perm ((st.space.fileAt i).rangeFor size :: st.regions)) :
    st'.Apart := by
  refine pairwise_disjoint_of_perm hperm.symm (List.pairwise_cons.mpr ⟨fun q hq hblob => ?_, h⟩)
  rcases List.mem_append.mp hq with hq | hq
  · exact .inr (hext.stop_le i hi q hq hblob.symm)
  · obtain ⟨w, hw, rfl⟩ := List.mem_map.mp hq
    exact absurd hblob.symm (hwaits w hw)

/-- A write is submitted to the active file. -/
theorem submitAt (h : st.Apart) (hext : st.Extents) {i : ℕ}
    (hi : st.space.activeIndex = some i)
    (hwaits : ∀ w ∈ st.waits, w.file.blobId ≠ (st.space.fileAt i).blobId) (size : ℕ)
    (write : FileInfo → W) : Apart { st with space := st.space.submitAt i size write } := by
  refine h.add hext (mem_current.mpr (.inl hi)) hwaits size ?_
  rw [regions, used, FileSpace.submitAt, List.map_append, List.map_singleton, ← List.append_assoc,
    List.append_assoc]
  exact List.perm_middle

/-- A `put` or `del` begins to wait for the active file. -/
theorem wait (h : st.Apart) (hext : st.Extents) {i : ℕ} (hi : st.space.activeIndex = some i)
    (hwaits : ∀ w ∈ st.waits, w.file.blobId ≠ (st.space.fileAt i).blobId) (size : ℕ) :
    Apart { st with waits := ⟨i, st.space.fileAt i, size⟩ :: st.waits } := by
  refine h.add hext (mem_current.mpr (.inl hi)) hwaits size ?_
  rw [regions, List.map_cons]
  exact List.perm_middle

/-- A write in flight becomes the records in it. -/
theorem complete (h : st.Apart) {i : ℕ} {io : InflightIo W} {ranges : List BlobRange}
    (hio : st.space.inflight[i]? = some io) (hsplits : io.range.Splits ranges) :
    Apart { st with
      space := st.space.eraseInflight i
      records := st.records ++ ranges } := by
  obtain ⟨hi, rfl⟩ := List.getElem?_eq_some_iff.mp hio
  let others := st.records ++ ((st.space.inflight.eraseIdx i).map InflightIo.range ++
    st.waits.map FileWait.range)
  have hbefore : st.regions.Perm (st.space.inflight[i].range :: others) := by
    have hperm := (List.getElem_cons_eraseIdx_perm hi).map InflightIo.range
    rw [regions, used, List.append_assoc]
    refine ((hperm.symm.append_right _).append_left _).trans ?_
    rw [List.map_cons, List.cons_append]
    exact List.perm_middle
  obtain ⟨hio, hothers⟩ := List.pairwise_cons.mp (pairwise_disjoint_of_perm hbefore h)
  have hafter : (ranges ++ others).Perm (regions { st with
      space := st.space.eraseInflight i
      records := st.records ++ ranges }) := by
    rw [regions, used, List.append_assoc, List.append_assoc]
    exact List.perm_append_comm_assoc _ _ _
  refine pairwise_disjoint_of_perm hafter (List.pairwise_append.mpr
    ⟨hsplits.2, hothers, fun p hp q hq => ?_⟩)
  exact (hio q hq).of_splits hsplits hp

/-- The innermost `put` or `del` takes its space. -/
theorem endWait (h : st.Apart) {w : FileWait} {rest : List FileWait}
    (hwaits : st.waits = w :: rest) (hinflight : st'.space.inflight = st.space.inflight)
    (hrecords : st'.records = st.records ++ [w.range]) (hrest : st'.waits = rest) :
    st'.Apart := by
  refine pairwise_disjoint_of_perm ?_ h
  rw [regions, used, hwaits, List.map_cons, regions, used, hrecords, hinflight, hrest,
    List.append_assoc, List.append_assoc, List.append_assoc, List.singleton_append]
  exact List.perm_middle.append_left _

end Apart

/-- **Every act that meets the conditions keeps the records apart.** -/
theorem apart_act {st st' : FileStore W} {act : FileAct W} (h : st.Apart) (hext : st.Extents)
    (htable : st.TableOk) (hown : st.OwnsLastFile act) (halone : st.WaitsAlone act)
    (hs : st.act act = some st') : st'.Apart := by
  cases act with
  | mark i state =>
      obtain rfl := Option.some.inj hs
      exact h
  | flags allocating pendingCheckpoint nearFull =>
      obtain rfl := Option.some.inj hs
      exact h
  | submit size write =>
      obtain ⟨i, hi, rfl⟩ := Option.map_eq_some_iff.mp hs
      have hactive := (FileSpace.roomyFile_eq_some hi).1
      exact h.submitAt hext hactive (halone i hactive) size write
  | drain size write =>
      obtain ⟨i, hi, rfl⟩ := Option.map_eq_some_iff.mp hs
      have hactive := (Option.filter_eq_some_iff.mp hi).1
      exact h.submitAt hext hactive (halone i hactive) size write
  | complete i ranges =>
      obtain ⟨io, hio, hs⟩ := Option.bind_eq_some_iff.mp hs
      obtain ⟨⟨hsplits, -⟩, hs⟩ := Option.ite_none_right_eq_some.mp hs
      obtain rfl := Option.some.inj hs
      exact h.complete hio hsplits
  | wait size =>
      obtain ⟨i, hi, rfl⟩ := Option.map_eq_some_iff.mp hs
      have hactive := (FileSpace.roomyFile_eq_some hi).1
      exact h.wait hext hactive (halone i hactive) size
  | endWait ok =>
      rw [FileStore.act] at hs
      split at hs
      · cases hs
      · next w rest hwaits =>
          cases ok with
          | false =>
              obtain rfl := Option.some.inj hs
              refine h.of_sublist ?_
              rw [regions, regions, hwaits]
              exact (List.Sublist.refl _).append ((List.sublist_cons_self _ _).map _)
          | true =>
              obtain ⟨-, hs⟩ := Option.ite_none_right_eq_some.mp hs
              obtain rfl := Option.some.inj hs
              exact h.endWait hwaits rfl rfl rfl
  | beginAsync =>
      obtain rfl := Option.some.inj hs
      exact h
  | endAsync ok =>
      obtain ⟨i, hi, rfl⟩ := Option.map_eq_some_iff.mp hs
      cases ok with
      | false => exact h
      | true =>
          rw [FileSpace.onNewFileAllocated_true hi (hown i hi)]
          exact h
  | beginAlloc =>
      obtain rfl := Option.some.inj hs
      exact h
  | endAlloc use =>
      rw [FileStore.act] at hs
      split at hs
      · cases hs
      · next i rest hallocs =>
          obtain rfl := Option.some.inj hs
          obtain ⟨hmem, hpending⟩ := htable.pending_of_allocs hallocs
          obtain ⟨hext', hindex⟩ := hext.endAlloc htable hallocs
          have hactive : Apart { st with
              space := (st.space.finishNewFile i).activate i, allocs := rest } := h
          -- The blob of the file was just created, so no call waits for it.
          have hfresh : ∀ w ∈ st.waits, w.file.blobId ≠
              (((st.space.finishNewFile i).activate i).fileAt i).blobId := by
            intro w hw
            have hfile : ((st.space.finishNewFile i).fileAt i).blobId = st.space.nextBlobId :=
              congrArg FileInfo.blobId ((st.space.fileAt_modifyFile i i _
                (htable.pending_lt i hmem)).trans (if_pos rfl))
            have hold := hext.file_lt _ (FileSpace.fileAt_mem (hext.waits w hw).place_lt)
            rw [(hext.waits w hw).blobId] at hold
            exact fun heq => absurd (heq.trans hfile) (Nat.ne_of_lt hold)
          cases use with
          | sync size => exact hactive.wait hext' hindex hfresh size
          | buffer size write => exact hactive.submitAt hext' hindex hfresh size write
          | compaction source => exact h
  | failAlloc =>
      rw [FileStore.act] at hs
      split at hs
      · cases hs
      · obtain rfl := Option.some.inj hs
        exact h
  | migrate k size ok =>
      obtain ⟨run, hrun, hs⟩ := Option.bind_eq_some_iff.mp hs
      cases ok with
      | false =>
          obtain rfl := Option.some.inj hs
          exact h
      | true =>
          obtain ⟨-, hs⟩ := Option.ite_none_right_eq_some.mp hs
          obtain rfl := Option.some.inj hs
          exact h
  | discard k =>
      obtain ⟨run, -, rfl⟩ := Option.map_eq_some_iff.mp hs
      exact h
  | updateSuperblock position dataBytes garbageBytes =>
      obtain rfl := Option.some.inj hs
      exact h
  | superblockWritten ok =>
      obtain ⟨superblock, -, rfl⟩ := Option.map_eq_some_iff.mp hs
      exact h
  | reopen logged =>
      obtain ⟨-, hs⟩ := Option.ite_none_right_eq_some.mp hs
      obtain rfl := Option.some.inj hs
      refine h.of_sublist ?_
      rw [regions, used, FileSpace.reopened_inflight, List.map_nil, List.map_nil,
        List.append_nil, List.append_nil, regions, used, List.append_assoc]
      exact List.sublist_append_left _ _

end FileStore

/-! ### The records of the engine -/

namespace EngineSystem

variable {n : ℕ}

/-- The conditions for the places, for an event. -/
def KeepsApart (s : EngineSystem n) (ev : EngineEvent n) : Prop :=
  (fileMachine _).Meets
    (fun st act => st.OwnsLastFile act ∧ st.RestoresOffset act ∧ st.WaitsAlone act)
    s.view (s.acts ev)

instance (s : EngineSystem n) (ev : EngineEvent n) : Decidable (s.KeepsApart ev) :=
  inferInstanceAs (Decidable ((fileMachine _).Meets _ _ _))

theorem extents_created (index : MemIndex n) (dataFileSize bufferCount blobPages : ℕ) :
    (created index dataFileSize bufferCount blobPages).view.Extents where
  active_lt := Nat.zero_lt_one
  pending_ne := by simp [view, created, FileSpace.created, FileStore.pendingFiles]
  nextBlobId_pos := Nat.zero_lt_two
  used_lt := by simp [view, created, FileSpace.created, FileStore.used]
  file_lt := by
    intro file hfile
    rw [List.mem_singleton.mp hfile]
    exact Nat.one_lt_two
  waits := by simp [view, created]
  runs := by simp [view, created]
  blob_inj := by
    intro i hi j hj _
    rcases FileStore.mem_current.mp hi with hi | ⟨w, hw, -⟩
    · rcases FileStore.mem_current.mp hj with hj | ⟨w, hw, -⟩
      · exact Option.some.inj (hi.symm.trans hj)
      · cases hw
    · cases hw
  stop_le := by simp [view, created, FileSpace.created, FileStore.used]

/-- **Records do not overlap**: in every run of the engine whose events meet the conditions,
the ranges of any two records that were reported successful are disjoint. -/
theorem records_disjoint {index : MemIndex n} {dataFileSize bufferCount blobPages : ℕ}
    {s : EngineSystem n} {evs : List (EngineEvent n)}
    (hc : (engineMachine n).Meets KeepsApart
      (created index dataFileSize bufferCount blobPages) evs)
    (hr : (engineMachine n).run (created index dataFileSize bufferCount blobPages) evs = some s) :
    (s.records.map PlacedRecord.range).Pairwise BlobRange.Disjoint := by
  have hstep : ∀ (st : FileStore InflightWrite) (act : FileAct InflightWrite)
      (st' : FileStore InflightWrite), st.TableOk ∧ st.Extents ∧ st.Apart →
      st.OwnsLastFile act ∧ st.RestoresOffset act ∧ st.WaitsAlone act →
      st.act act = some st' → st'.TableOk ∧ st'.Extents ∧ st'.Apart := by
    rintro st act st' ⟨htable, hext, hapart⟩ ⟨hown, hoffset, halone⟩ hs
    exact ⟨FileStore.tableOk_act htable hown hs,
      FileStore.extents_act hext htable hown hoffset hs,
      FileStore.apart_act hapart hext htable hown halone hs⟩
  have hstart : (created index dataFileSize bufferCount blobPages).view.Apart := .nil
  obtain ⟨-, -, -, hapart⟩ := (engine_refines n).run_invariant
    (fun st => st.TableOk ∧ st.Extents ∧ st.Apart) hstep (.created ..)
    ⟨tableOk_created .., extents_created .., hstart⟩ hc hr
  exact hapart.sublist ((List.sublist_append_left _ _).trans (List.sublist_append_left _ _))

/-- A put and, when it is done, an asynchronous one. -/
def putThenPutAsync : List (EngineEvent 3) :=
  [.put 1 100, .wake true, .async (.putAsync 2 [4096]), .async (.complete 0 true)]

/-- One after the other they lie behind one another. -/
theorem records_disjoint_putThenPutAsync :
    ∃ s, (engineMachine 3).run (created (MemIndex.fresh 3) (2 ^ 33) kMinBufferCount (2 ^ 21))
        putThenPutAsync = some s ∧
      (s.records.map PlacedRecord.range).Pairwise BlobRange.Disjoint := by
  have hmeets : (engineMachine 3).Meets KeepsApart
      (created (MemIndex.fresh 3) (2 ^ 33) kMinBufferCount (2 ^ 21)) putThenPutAsync := by
    decide +kernel
  have hrun : ((engineMachine 3).run
      (created (MemIndex.fresh 3) (2 ^ 33) kMinBufferCount (2 ^ 21)) putThenPutAsync).isSome := by
    decide +kernel
  obtain ⟨s, hs⟩ := Option.isSome_iff_exists.mp hrun
  exact ⟨s, hs, records_disjoint hmeets hs⟩

/-- A put during whose wait loop a callback calls `put_async`. -/
def putAsyncWithinPut : List (EngineEvent 3) :=
  [.put 1 100, .async (.putAsync 2 [4096]), .async (.complete 0 true), .wake true]

/-- **A callback within a put overwrites its record**: both records get the same range, and
both are reported successful. -/
theorem nested_records_overlap :
    ∃ s, (engineMachine 3).run (created (MemIndex.fresh 3) (2 ^ 33) kMinBufferCount (2 ^ 21))
        putAsyncWithinPut = some s ∧
      s.records.map PlacedRecord.range = [⟨1, 0, 4096, 4096⟩, ⟨1, 0, 4096, 4096⟩] ∧
      ¬ (s.records.map PlacedRecord.range).Pairwise BlobRange.Disjoint := by
  have hrun : ((engineMachine 3).run
      (created (MemIndex.fresh 3) (2 ^ 33) kMinBufferCount (2 ^ 21)) putAsyncWithinPut).map
      (fun s => s.records.map PlacedRecord.range) =
      some [⟨1, 0, 4096, 4096⟩, ⟨1, 0, 4096, 4096⟩] := by decide +kernel
  obtain ⟨s, hs, hranges⟩ := Option.map_eq_some_iff.mp hrun
  refine ⟨s, hs, hranges, ?_⟩
  rw [hranges]
  decide

end EngineSystem

end SpdkKv
