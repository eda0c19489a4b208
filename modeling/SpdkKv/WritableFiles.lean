import SpdkKv.FileExtents

/-!
# Which Files Are Written To

A file that takes writes is active. It is sealed before the file that replaces it is there, and
it stays the active one until then; compactions mark any file; and no write looks at the state.
The memory of a run tells whether the active file was sealed, marked or given up since it became
the active one.

## Main results

* `FileStore.submitted_of_act`: what is submitted goes behind the end of the file written to.
* `FileStore.fillable_act`: every act that meets the condition keeps the invariant.
* `EngineSystem.writes_go_to_active_files`: **writes go to files that are active** in every run
  that puts nothing into a retired file.
-/

namespace SpdkKv

/-! ### States of files -/

namespace FileSpace

variable {W : Type}

/-- A file that is added is active, like one that is not there. -/
theorem state_fileAt_pushNewFile (self : FileSpace W) (j : ℕ) :
    (self.pushNewFile.fileAt j).state = (self.fileAt j).state := by
  rcases lt_trichotomy j self.files.length with hj | rfl | hj
  · rw [fileAt_pushNewFile self hj]
  · rw [fileAt, pushNewFile, List.getElem?_concat_length, fileAt, List.getElem?_eq_none le_rfl]
    rfl
  · rw [fileAt, fileAt, List.getElem?_eq_none hj.le, List.getElem?_eq_none]
    rw [pushNewFile, List.length_append, List.length_singleton]
    exact hj

theorem state_fileAt_dropNewFile {self : FileSpace W} {j : ℕ}
    (h : (self.fileAt j).state = .kActive) : (self.dropNewFile.fileAt j).state = .kActive := by
  by_cases hj : j + 1 < self.files.length
  · rwa [fileAt_dropNewFile self hj]
  · rw [fileAt, List.getElem?_eq_none]
    · rfl
    · rw [dropNewFile, List.length_dropLast]
      omega

theorem state_fileAt_finishNewFile (self : FileSpace W) (i j : ℕ) :
    ((self.finishNewFile i).fileAt j).state = (self.fileAt j).state :=
  self.apply_fileAt_modifyFile i j (g := FileInfo.state) fun _ => rfl

/-- A file that is added may become the active one. -/
theorem activeIndex_of_pushNewFile {self : FileSpace W} {j : ℕ}
    (h : self.pushNewFile.activeIndex = some j) :
    self.activeIndex = some j ∨ j = self.files.length := by
  rw [activeIndex, pushNewFile, List.findIdx?_append, Option.or_eq_some_iff] at h
  rcases h with h | ⟨-, h⟩
  · exact .inl h
  · obtain ⟨k, hk, rfl⟩ := Option.map_eq_some_iff.mp h
    have hk := (List.findIdx?_eq_some_iff_getElem.mp hk).1
    rw [List.length_singleton] at hk
    exact .inr (by omega)

theorem activeIndex_of_dropNewFile {self : FileSpace W} {j : ℕ}
    (h : self.dropNewFile.activeIndex = some j) : self.activeIndex = some j :=
  (List.dropLast_prefix self.files).findIdx?_eq_some h

theorem activeIndex_of_roomyFile {self : FileSpace W} {size i : ℕ}
    (h : self.roomyFile size = some i) : self.activeIndex = some i :=
  (Option.filter_eq_some_iff.mp h).1

end FileSpace

namespace FileStore

variable {W : Type} {st st' : FileStore W}

/-! ### The file written to -/

/-- The file that a write is appended to, as it is at that moment. -/
def writesTo (st : FileStore W) : FileAct W → Option FileInfo
  | .submit size _ => (st.space.roomyFile size).map st.space.fileAt
  | .wait size => (st.space.roomyFile size).map st.space.fileAt
  | .drain _ _ =>
      (st.space.activeIndex.filter fun i => (st.space.fileAt i).blobOpened).map st.space.fileAt
  | .endAlloc (.sync _) => st.allocs.head?.map fun i => (st.space.finishNewFile i).fileAt i
  | .endAlloc (.buffer _ _) => st.allocs.head?.map fun i => (st.space.finishNewFile i).fileAt i
  | _ => none

/-- A file that is written to is active. -/
def WritesActive (st : FileStore W) (act : FileAct W) : Prop :=
  ∀ file ∈ st.writesTo act, file.state = .kActive

instance (st : FileStore W) (act : FileAct W) : Decidable (st.WritesActive act) :=
  inferInstanceAs (Decidable (∀ file ∈ st.writesTo act, _))

/-- What a write adds to the ones in flight. -/
theorem mem_inflight_submitAt {space : FileSpace W} {i size : ℕ} {write : FileInfo → W}
    {io : InflightIo W} (h : io ∈ (space.submitAt i size write).inflight) :
    io ∈ space.inflight ∨ io.range = (space.fileAt i).rangeFor size := by
  rcases List.mem_append.mp h with h | h
  · exact .inl h
  · rw [List.mem_singleton.mp h]
    exact .inr rfl

/-- **What is submitted goes behind the end of the file written to**: writes in flight, and
calls that wait for their IO. -/
theorem submitted_of_act {act : FileAct W} (hs : st.act act = some st') :
    (∀ io ∈ st'.space.inflight, io ∈ st.space.inflight ∨
      ∃ file ∈ st.writesTo act, ∃ size, io.range = file.rangeFor size) ∧
    ∀ w ∈ st'.waits, w ∈ st.waits ∨ w.file ∈ st.writesTo act := by
  cases act with
  | mark i state =>
      obtain rfl := Option.some.inj hs
      exact ⟨fun _ => .inl, fun _ => .inl⟩
  | flags allocating pendingCheckpoint nearFull =>
      obtain rfl := Option.some.inj hs
      exact ⟨fun _ => .inl, fun _ => .inl⟩
  | submit size write =>
      obtain ⟨i, hroom, rfl⟩ := Option.map_eq_some_iff.mp hs
      refine ⟨fun io hio => (mem_inflight_submitAt hio).imp_right fun hrange => ?_, fun _ => .inl⟩
      exact ⟨_, Option.map_eq_some_iff.mpr ⟨i, hroom, rfl⟩, size, hrange⟩
  | drain size write =>
      obtain ⟨i, hroom, rfl⟩ := Option.map_eq_some_iff.mp hs
      refine ⟨fun io hio => (mem_inflight_submitAt hio).imp_right fun hrange => ?_, fun _ => .inl⟩
      exact ⟨_, Option.map_eq_some_iff.mpr ⟨i, hroom, rfl⟩, size, hrange⟩
  | complete i ranges =>
      obtain ⟨io, -, hs⟩ := Option.bind_eq_some_iff.mp hs
      obtain ⟨-, hs⟩ := Option.ite_none_right_eq_some.mp hs
      obtain rfl := Option.some.inj hs
      exact ⟨fun _ h => .inl (List.mem_of_mem_eraseIdx h), fun _ => .inl⟩
  | wait size =>
      obtain ⟨i, hroom, rfl⟩ := Option.map_eq_some_iff.mp hs
      refine ⟨fun _ => .inl, fun w hw => ?_⟩
      rcases List.mem_cons.mp hw with rfl | hw
      · exact .inr (Option.map_eq_some_iff.mpr ⟨i, hroom, rfl⟩)
      · exact .inl hw
  | endWait ok =>
      rw [FileStore.act] at hs
      split at hs
      · cases hs
      · next w rest hwaits =>
          have hrest : ∀ v ∈ rest, v ∈ st.waits := fun v hv => hwaits ▸ List.mem_cons_of_mem _ hv
          cases ok with
          | false =>
              obtain rfl := Option.some.inj hs
              exact ⟨fun _ => .inl, fun v hv => .inl (hrest v hv)⟩
          | true =>
              obtain ⟨-, hs⟩ := Option.ite_none_right_eq_some.mp hs
              obtain rfl := Option.some.inj hs
              exact ⟨fun _ => .inl, fun v hv => .inl (hrest v hv)⟩
  | beginAsync =>
      obtain rfl := Option.some.inj hs
      exact ⟨fun _ => .inl, fun _ => .inl⟩
  | endAsync ok =>
      obtain ⟨i, hi, rfl⟩ := Option.map_eq_some_iff.mp hs
      refine ⟨fun io hio => .inl ?_, fun _ => .inl⟩
      cases ok with
      | false => exact hio
      | true =>
          rw [FileSpace.onNewFileAllocated, hi] at hio
          exact hio
  | beginAlloc =>
      obtain rfl := Option.some.inj hs
      exact ⟨fun _ => .inl, fun _ => .inl⟩
  | endAlloc use =>
      rw [FileStore.act] at hs
      split at hs
      · cases hs
      · next i rest hallocs =>
          obtain rfl := Option.some.inj hs
          cases use with
          | sync size =>
              refine ⟨fun _ => .inl, fun w hw => ?_⟩
              rcases List.mem_cons.mp hw with rfl | hw
              · refine .inr ?_
                rw [writesTo, hallocs]
                rfl
              · exact .inl hw
          | buffer size write =>
              refine ⟨fun io hio => (mem_inflight_submitAt hio).imp_right fun hrange => ?_,
                fun _ => .inl⟩
              refine ⟨_, ?_, size, hrange⟩
              rw [writesTo, hallocs]
              rfl
          | compaction source => exact ⟨fun _ => .inl, fun _ => .inl⟩
  | failAlloc =>
      rw [FileStore.act] at hs
      split at hs
      · cases hs
      · obtain rfl := Option.some.inj hs
        exact ⟨fun _ => .inl, fun _ => .inl⟩
  | migrate k size ok =>
      obtain ⟨run, -, hs⟩ := Option.bind_eq_some_iff.mp hs
      cases ok with
      | false =>
          obtain rfl := Option.some.inj hs
          exact ⟨fun _ => .inl, fun _ => .inl⟩
      | true =>
          obtain ⟨-, hs⟩ := Option.ite_none_right_eq_some.mp hs
          obtain rfl := Option.some.inj hs
          exact ⟨fun _ => .inl, fun _ => .inl⟩
  | discard k =>
      obtain ⟨run, -, rfl⟩ := Option.map_eq_some_iff.mp hs
      exact ⟨fun _ => .inl, fun _ => .inl⟩
  | updateSuperblock position dataBytes garbageBytes =>
      obtain rfl := Option.some.inj hs
      exact ⟨fun _ => .inl, fun _ => .inl⟩
  | superblockWritten ok =>
      obtain ⟨superblock, -, rfl⟩ := Option.map_eq_some_iff.mp hs
      exact ⟨fun _ => .inl, fun _ => .inl⟩
  | reopen logged =>
      obtain ⟨-, hs⟩ := Option.ite_none_right_eq_some.mp hs
      obtain rfl := Option.some.inj hs
      refine ⟨fun io hio => absurd hio ?_, fun w hw => absurd hw List.not_mem_nil⟩
      rw [FileSpace.reopened_inflight]
      exact List.not_mem_nil

/-! ### Retiring -/

/-- The act fills the active file. -/
def fillsActive : FileAct W → Bool
  | .submit _ _ => true
  | .wait _ => true
  | .drain _ _ => true
  | _ => false

/-- Whether the active file was sealed, marked or given up since it became the active one. -/
def retire (st : FileStore W) : FileAct W → Bool → Bool
  | .mark i state, retired => retired || (st.space.activeIndex == some i && state != .kActive)
  | .discard k, retired =>
      retired || st.runs[k]?.any fun run => st.space.activeIndex == some run.dest
  | .endAsync ok, retired => !ok && retired
  | .endAlloc (.sync _), _ => false
  | .endAlloc (.buffer _ _), _ => false
  | .reopen logged, _ =>
      (st.persisted.addLogged logged).fileMappings.any fun m =>
        m.fileId == st.persisted.activeFileId && m.state != .kActive
  | _, retired => retired

/-- The file whose state the act changes. -/
def marks (st : FileStore W) : FileAct W → Option ℕ
  | .mark i _ => some i
  | .discard k => st.runs[k]?.map CompactionRun.dest
  | _ => none

/-- **The condition**: no write finds room in a retired file, and the file of an allocation that
is under way is not marked. -/
def FillsFresh (p : FileStore W × Bool) (act : FileAct W) : Prop :=
  p.1.OwnsLastFile act ∧ (fillsActive act = true → p.1.writesTo act ≠ none → p.2 = false) ∧
    ∀ i ∈ p.1.marks act, i ∉ p.1.pendingFiles

instance (p : FileStore W × Bool) (act : FileAct W) : Decidable (FillsFresh p act) :=
  inferInstanceAs (Decidable (_ ∧ (_ → _ → _) ∧ ∀ i ∈ p.1.marks act, _))

/-- The files of the allocations under way are active, and so is the active file until it is
retired. -/
structure Fillable (p : FileStore W × Bool) : Prop where
  table : p.1.TableOk
  pending : ∀ i ∈ p.1.pendingFiles, (p.1.space.fileAt i).state = .kActive
  active : p.2 = false → ∀ i, p.1.space.activeIndex = some i →
    (p.1.space.fileAt i).state = .kActive

namespace Fillable

variable {retired : Bool}

/-- **Every write goes to a file that is active.** -/
theorem writesActive {act : FileAct W} (h : Fillable (st, retired))
    (hc : FillsFresh (st, retired) act) : st.WritesActive act := by
  obtain ⟨-, hfresh, -⟩ := hc
  have hactive : fillsActive act = true → st.writesTo act ≠ none →
      ∀ i, st.space.activeIndex = some i → (st.space.fileAt i).state = .kActive :=
    fun hfills hsome => h.active (hfresh hfills hsome)
  have hpending : ∀ file, (st.allocs.head?.map fun i => (st.space.finishNewFile i).fileAt i) =
      some file → file.state = .kActive := by
    intro file hfile
    obtain ⟨i, hi, rfl⟩ := Option.map_eq_some_iff.mp hfile
    rw [FileSpace.state_fileAt_finishNewFile]
    exact h.pending i (List.mem_append_right _ (List.mem_of_mem_head? hi))
  intro file hfile
  have hsome : st.writesTo act ≠ none := fun hnone => nomatch hnone.symm.trans hfile
  cases act with
  | submit size write =>
      obtain ⟨i, hi, rfl⟩ := Option.map_eq_some_iff.mp hfile
      exact hactive rfl hsome i (FileSpace.activeIndex_of_roomyFile hi)
  | wait size =>
      obtain ⟨i, hi, rfl⟩ := Option.map_eq_some_iff.mp hfile
      exact hactive rfl hsome i (FileSpace.activeIndex_of_roomyFile hi)
  | drain size write =>
      obtain ⟨i, hi, rfl⟩ := Option.map_eq_some_iff.mp hfile
      exact hactive rfl hsome i (Option.filter_eq_some_iff.mp hi).1
  | endAlloc use =>
      cases use with
      | sync size => exact hpending file hfile
      | buffer size write => exact hpending file hfile
      | compaction source => cases hfile
  | mark _ _ | flags _ _ _ | complete _ _ | endWait _ | beginAsync | endAsync _ | beginAlloc
  | failAlloc | migrate _ _ _ | discard _ | updateSuperblock _ _ _ | superblockWritten _
  | reopen _ => cases hfile

/-- What leaves active files active, and the active one where it is. -/
theorem of_states {r' : Bool} (h : Fillable (st, retired)) (htable : st'.TableOk)
    (hpending : ∀ i ∈ st'.pendingFiles, i ∈ st.pendingFiles)
    (hstate : ∀ i, (st.space.fileAt i).state = .kActive → (st'.space.fileAt i).state = .kActive)
    (hactive : ∀ i, st'.space.activeIndex = some i → st.space.activeIndex = some i)
    (hr : r' = false → retired = false) : Fillable (st', r') where
  table := htable
  pending := fun i hi => hstate i (h.pending i (hpending i hi))
  active := fun hfalse i hi => hstate i (h.active (hr hfalse) i (hactive i hi))

/-- Nothing changes about files but what a write does to the file it is appended to. -/
theorem modifyFile (h : Fillable (st, retired)) (htable : st'.TableOk) {i : ℕ}
    {f : FileInfo → FileInfo} (hfiles : st'.space.files = (st.space.modifyFile i f).files)
    (hid : ∀ file, (f file).fileId = file.fileId) (hf : ∀ file, (f file).state = file.state)
    (hactive : st'.space.activeFileId = st.space.activeFileId)
    (hpending : ∀ i ∈ st'.pendingFiles, i ∈ st.pendingFiles) : Fillable (st', retired) := by
  have hat : ∀ j, st'.space.fileAt j = (st.space.modifyFile i f).fileAt j := fun j => by
    rw [FileSpace.fileAt, hfiles, FileSpace.fileAt]
  have hindex : st'.space.activeIndex = st.space.activeIndex := by
    rw [← st.space.activeIndex_modifyFile i hid, FileSpace.activeIndex, hfiles, hactive]
    rfl
  refine h.of_states htable hpending (fun j hj => ?_) (fun j hj => hindex ▸ hj) id
  rw [hat, st.space.apply_fileAt_modifyFile i j hf]
  exact hj

/-- A file is added, for an allocation. -/
theorem push (h : Fillable (st, retired)) (htable : st'.TableOk)
    (hfiles : st'.space.files = st.space.pushNewFile.files)
    (hactive : st'.space.activeFileId = st.space.activeFileId)
    (hpending : ∀ i ∈ st'.pendingFiles, i ∈ st.pendingFiles ∨ i = st.space.files.length) :
    Fillable (st', retired) := by
  have hat : ∀ j, (st'.space.fileAt j).state = (st.space.fileAt j).state := fun j => by
    rw [← st.space.state_fileAt_pushNewFile j, FileSpace.fileAt, hfiles, FileSpace.fileAt]
  have hindex : st'.space.activeIndex = st.space.pushNewFile.activeIndex := by
    rw [FileSpace.activeIndex, hfiles, hactive]
    rfl
  -- a place behind the last file counts as active
  have hnew : (st.space.fileAt st.space.files.length).state = .kActive := by
    rw [FileSpace.fileAt, List.getElem?_eq_none le_rfl]
    rfl
  refine ⟨htable, fun i hi => ?_, fun hr i hi => ?_⟩
  · rw [hat]
    rcases hpending i hi with hi | rfl
    · exact h.pending i hi
    · exact hnew
  · rw [hat]
    rcases FileSpace.activeIndex_of_pushNewFile (hindex ▸ hi) with hi | rfl
    · exact h.active hr i hi
    · exact hnew

/-- The last file is removed. -/
theorem drop (h : Fillable (st, retired)) (htable : st'.TableOk)
    (hfiles : st'.space.files = st.space.dropNewFile.files)
    (hactive : st'.space.activeFileId = st.space.activeFileId)
    (hpending : ∀ i ∈ st'.pendingFiles, i ∈ st.pendingFiles) : Fillable (st', retired) := by
  have hat : ∀ j, st'.space.fileAt j = st.space.dropNewFile.fileAt j := fun j => by
    rw [FileSpace.fileAt, hfiles, FileSpace.fileAt]
  have hindex : st'.space.activeIndex = st.space.dropNewFile.activeIndex := by
    rw [FileSpace.activeIndex, hfiles, hactive]
    rfl
  refine h.of_states htable hpending (fun j hj => ?_) (fun j hj => ?_) id
  · rw [hat]
    exact FileSpace.state_fileAt_dropNewFile hj
  · exact FileSpace.activeIndex_of_dropNewFile (hindex ▸ hj)

/-- The state of a file that no allocation is for changes. -/
theorem mark (h : Fillable (st, retired)) (htable : st'.TableOk) {r' : Bool} {i : ℕ}
    {f : FileInfo → FileInfo} (hspace : st'.space = st.space.modifyFile i f)
    (hid : ∀ file, (f file).fileId = file.fileId) (hi : i ∉ st.pendingFiles)
    (hr : r' = false → retired = false ∧
      (st.space.activeIndex = some i → (f (st.space.fileAt i)).state = .kActive))
    (hpending : st'.pendingFiles = st.pendingFiles) : Fillable (st', r') := by
  have hindex : st'.space.activeIndex = st.space.activeIndex := by
    rw [hspace, st.space.activeIndex_modifyFile i hid]
  have hat : ∀ j, i ≠ j → (st.space.fileAt j).state = .kActive →
      (st'.space.fileAt j).state = .kActive := by
    intro j hne hj
    rw [hspace]
    by_cases hlt : j < st.space.files.length
    · rwa [st.space.fileAt_modifyFile i j f hlt, if_neg hne]
    · rw [FileSpace.fileAt, List.getElem?_eq_none]
      · rfl
      · rw [FileSpace.length_modifyFile]
        exact not_lt.mp hlt
  refine ⟨htable, fun j hj => ?_, fun hfalse j hj => ?_⟩
  · have hj : j ∈ st.pendingFiles := hpending ▸ hj
    exact hat j (fun heq => hi (heq ▸ hj)) (h.pending j hj)
  · obtain ⟨hold, hmark⟩ := hr hfalse
    have hj : st.space.activeIndex = some j := hindex ▸ hj
    by_cases hne : i = j
    · subst hne
      rw [hspace, st.space.fileAt_modifyFile i i f (FileSpace.activeIndex_lt hj), if_pos rfl]
      exact hmark hj
    · exact hat j hne (h.active hold j hj)

/-- A new file, whose blob was opened, becomes the active one. -/
theorem activate (h : Fillable (st, retired)) (htable : st'.TableOk) {r' : Bool} {i : ℕ}
    (hi : i ∈ st.pendingFiles)
    (hstate : ∀ j, (st'.space.fileAt j).state = (st.space.fileAt j).state)
    (hlength : st'.space.files.length = st.space.files.length)
    (hactive : st'.space.activeFileId = (st'.space.fileAt i).fileId)
    (hpending : ∀ j ∈ st'.pendingFiles, j ∈ st.pendingFiles) : Fillable (st', r') := by
  have hlt : i < st'.space.files.length := hlength ▸ h.table.pending_lt i hi
  have hindex : st'.space.activeIndex = some i :=
    FileSpace.activeIndex_eq_some_of htable.numbering.nodup hlt hactive.symm
  refine ⟨htable, fun j hj => ?_, fun _ j hj => ?_⟩
  · rw [hstate]
    exact h.pending j (hpending j hj)
  · obtain rfl := Option.some.inj (hindex.symm.trans hj)
    rw [hstate]
    exact h.pending i hi

end Fillable

/-- What `open` finds. -/
theorem fillable_reopen {logged : List (ℕ × ℕ)} {retired : Bool}
    (htable : TableOk (W := W) { st with
      space := .reopened st.space.dataFileSize st.space.nextBlobId st.persisted logged
      allocs := []
      waits := []
      runs := []
      writing := none }) :
    Fillable (W := W) ({ st with
      space := .reopened st.space.dataFileSize st.space.nextBlobId st.persisted logged
      allocs := []
      waits := []
      runs := []
      writing := none }, st.retire (.reopen logged) retired) := by
  have hpending : ∀ (d b : ℕ) (loaded : SuperblockFiles),
      (FileSpace.reopened (W := W) d b loaded logged).newFile = none := by
    intro d b loaded
    by_cases hnil : (loaded.addLogged logged).fileMappings = []
    · rw [FileSpace.reopened_eq_of_nil _ _ hnil]
    · rw [FileSpace.reopened_eq _ _ hnil]
  refine ⟨htable, fun i hi => ?_, fun hfalse i hi => ?_⟩
  · rw [pendingFiles, hpending] at hi
    exact absurd hi List.not_mem_nil
  · dsimp only at hi ⊢
    obtain ⟨hlt, hid, -⟩ := List.findIdx?_eq_some_iff_getElem.mp hi
    rw [FileSpace.fileAt, List.getElem?_eq_getElem hlt, Option.getD_some]
    have hmem := List.getElem_mem hlt
    generalize (FileSpace.files _)[i] = file at hid hmem ⊢
    by_cases hnil : (st.persisted.addLogged logged).fileMappings = []
    · rw [FileSpace.reopened_eq_of_nil _ _ hnil] at hmem
      rw [List.mem_singleton.mp hmem]
      rfl
    · rw [FileSpace.reopened_eq _ _ hnil] at hmem hid
      obtain ⟨m, hm, rfl⟩ := List.mem_map.mp hmem
      have hstate := List.any_eq_false.mp hfalse m hm
      rw [Bool.and_eq_true, not_and] at hstate
      have hactive : m.state = .kActive := by simpa using hstate hid
      exact hactive

/-- **Every act that meets the condition keeps the invariant.** -/
theorem fillable_act {act : FileAct W} {retired : Bool} (h : Fillable (st, retired))
    (hc : FillsFresh (st, retired) act) (hs : st.act act = some st') :
    Fillable (st', st.retire act retired) := by
  have htable : st'.TableOk := tableOk_act h.table hc.1 hs
  obtain ⟨hown, -, hmark⟩ := hc
  cases act with
  | mark i state =>
      obtain rfl := Option.some.inj hs
      refine h.mark htable rfl (fun _ => rfl) (hmark i rfl) (fun hfalse => ?_) rfl
      rw [retire, Bool.or_eq_false_iff, Bool.and_eq_false_iff] at hfalse
      refine ⟨hfalse.1, fun hactive => ?_⟩
      rcases hfalse.2 with hne | hstate
      · exact absurd hactive (beq_eq_false_iff_ne.mp hne)
      · simpa using hstate
  | flags allocating pendingCheckpoint nearFull =>
      obtain rfl := Option.some.inj hs
      exact h.of_states htable (fun _ => id) (fun _ => id) (fun _ => id) id
  | submit size write =>
      obtain ⟨i, hroom, rfl⟩ := Option.map_eq_some_iff.mp hs
      exact h.modifyFile htable rfl (fun _ => rfl) (fun _ => rfl) rfl fun _ => id
  | drain size write =>
      obtain ⟨i, hroom, rfl⟩ := Option.map_eq_some_iff.mp hs
      exact h.modifyFile htable rfl (fun _ => rfl) (fun _ => rfl) rfl fun _ => id
  | complete i ranges =>
      obtain ⟨io, -, hs⟩ := Option.bind_eq_some_iff.mp hs
      obtain ⟨-, hs⟩ := Option.ite_none_right_eq_some.mp hs
      obtain rfl := Option.some.inj hs
      exact h.of_states htable (fun _ => id) (fun _ => id) (fun _ => id) id
  | wait size =>
      obtain ⟨i, hroom, rfl⟩ := Option.map_eq_some_iff.mp hs
      exact h.of_states htable (fun _ => id) (fun _ => id) (fun _ => id) id
  | endWait ok =>
      rw [FileStore.act] at hs
      split at hs
      · cases hs
      · next w rest hwaits =>
          cases ok with
          | false =>
              obtain rfl := Option.some.inj hs
              exact h.of_states htable (fun _ => id) (fun _ => id) (fun _ => id) id
          | true =>
              obtain ⟨-, hs⟩ := Option.ite_none_right_eq_some.mp hs
              obtain rfl := Option.some.inj hs
              exact h.modifyFile htable rfl (fun _ => rfl) (fun _ => rfl) rfl fun _ => id
  | beginAsync =>
      obtain rfl := Option.some.inj hs
      refine h.push htable rfl rfl fun i hi => ?_
      rcases List.mem_cons.mp hi with rfl | hi
      · exact .inr rfl
      · exact .inl (List.mem_append_right _ hi)
  | endAsync ok =>
      obtain ⟨i, hi, rfl⟩ := Option.map_eq_some_iff.mp hs
      have hallocs : ∀ j ∈ st.allocs, j ∈ st.pendingFiles := fun j hj =>
        List.mem_append_right _ hj
      cases ok with
      | false => exact h.drop htable rfl rfl hallocs
      | true =>
          have hplace := (h.table.pending_of_newFile hi).1
          rw [FileSpace.onNewFileAllocated_true hi (hown i hi)] at htable ⊢
          exact h.activate htable hplace
            (fun j => FileSpace.state_fileAt_finishNewFile _ i j)
            (FileSpace.length_modifyFile _ _ _) rfl hallocs
  | beginAlloc =>
      obtain rfl := Option.some.inj hs
      refine h.push htable rfl rfl fun i hi => ?_
      rcases List.mem_append.mp hi with hi | hi
      · exact .inl (List.mem_append_left _ hi)
      · rcases List.mem_cons.mp hi with rfl | hi
        · exact .inr rfl
        · exact .inl (List.mem_append_right _ hi)
  | endAlloc use =>
      rw [FileStore.act] at hs
      split at hs
      · cases hs
      · next i rest hallocs =>
          obtain rfl := Option.some.inj hs
          obtain ⟨hplace, hrest⟩ := h.table.pending_of_allocs hallocs
          have hpending := fun j hj => (hrest j hj).1
          cases use with
          | sync size =>
              exact h.activate htable hplace
                (fun j => st.space.state_fileAt_finishNewFile i j)
                (FileSpace.length_modifyFile _ _ _) rfl hpending
          | buffer size write =>
              refine h.activate htable hplace (fun j => ?_) ?_ ?_ hpending
              · exact (FileSpace.apply_fileAt_modifyFile _ i j (f := fun file => file.grow size)
                  (g := FileInfo.state) fun _ => rfl).trans (st.space.state_fileAt_finishNewFile i j)
              · exact (FileSpace.length_modifyFile _ _ _).trans
                  (FileSpace.length_modifyFile _ _ _)
              · exact (FileSpace.apply_fileAt_modifyFile _ i i (f := fun file => file.grow size)
                  (g := FileInfo.fileId) fun _ => rfl).symm
          | compaction source =>
              exact h.modifyFile htable rfl (fun _ => rfl) (fun _ => rfl) rfl hpending
  | failAlloc =>
      rw [FileStore.act] at hs
      split at hs
      · cases hs
      · next i rest hallocs =>
          obtain rfl := Option.some.inj hs
          exact h.drop htable rfl rfl fun j hj =>
            ((h.table.pending_of_allocs hallocs).2 j hj).1
  | migrate k size ok =>
      obtain ⟨run, -, hs⟩ := Option.bind_eq_some_iff.mp hs
      cases ok with
      | false =>
          obtain rfl := Option.some.inj hs
          exact h
      | true =>
          obtain ⟨-, hs⟩ := Option.ite_none_right_eq_some.mp hs
          obtain rfl := Option.some.inj hs
          exact h.modifyFile htable rfl (fun _ => rfl) (fun _ => rfl) rfl fun _ => id
  | discard k =>
      obtain ⟨run, hrun, rfl⟩ := Option.map_eq_some_iff.mp hs
      refine h.mark htable rfl (fun _ => rfl) (hmark run.dest ?_) (fun hfalse => ?_) rfl
      · rw [marks, hrun]
        rfl
      · rw [retire, Bool.or_eq_false_iff, hrun] at hfalse
        exact ⟨hfalse.1, fun hactive => absurd hactive (beq_eq_false_iff_ne.mp hfalse.2)⟩
  | updateSuperblock position dataBytes garbageBytes =>
      obtain rfl := Option.some.inj hs
      exact h.of_states htable (fun _ => id) (fun _ => id) (fun _ => id) id
  | superblockWritten ok =>
      obtain ⟨superblock, -, rfl⟩ := Option.map_eq_some_iff.mp hs
      exact h.of_states htable (fun _ => id) (fun _ => id) (fun _ => id) id
  | reopen logged =>
      obtain ⟨-, hs⟩ := Option.ite_none_right_eq_some.mp hs
      obtain rfl := Option.some.inj hs
      exact fillable_reopen htable

end FileStore

/-! ### The engine -/

namespace EngineSystem

variable {n : ℕ}

/-- The memory of a run, after the acts of an event. -/
def retire (s : EngineSystem n) (ev : EngineEvent n) (retired : Bool) : Bool :=
  ((((fileMachine _).watched FileStore.retire).run (s.view, retired) (s.acts ev)).map
    Prod.snd).getD retired

/-- The condition for an event. -/
def FillsFresh (p : EngineSystem n × Bool) (ev : EngineEvent n) : Prop :=
  ((fileMachine _).watched FileStore.retire).Meets FileStore.FillsFresh (p.1.view, p.2)
    (p.1.acts ev)

instance (p : EngineSystem n × Bool) (ev : EngineEvent n) : Decidable (FillsFresh p ev) :=
  inferInstanceAs (Decidable (((fileMachine _).watched _).Meets _ _ _))

/-- The files that the writes of an event are appended to are active. -/
def WritesActive (s : EngineSystem n) (ev : EngineEvent n) : Prop :=
  (fileMachine _).Meets FileStore.WritesActive s.view (s.acts ev)

instance (s : EngineSystem n) (ev : EngineEvent n) : Decidable (s.WritesActive ev) :=
  inferInstanceAs (Decidable ((fileMachine _).Meets _ _ _))

theorem fillable_created (index : MemIndex n) (dataFileSize bufferCount blobPages : ℕ) :
    FileStore.Fillable ((created index dataFileSize bufferCount blobPages).view, false) where
  table := tableOk_created ..
  pending := by simp [view, created, FileSpace.created, FileStore.pendingFiles]
  active := by
    intro _ i hi
    obtain rfl := Nat.lt_one_iff.mp (FileSpace.activeIndex_lt hi)
    rfl

/-- **Every event that meets the condition keeps the invariant.** -/
theorem fillable_step {s s' : EngineSystem n} {ev : EngineEvent n} {retired : Bool}
    (hsound : s.Sound) (h : FileStore.Fillable (s.view, retired)) (hc : FillsFresh (s, retired) ev)
    (hs : s.step ev = some s') : FileStore.Fillable (s'.view, s.retire ev retired) := by
  obtain ⟨retired', hrun⟩ : ∃ retired', ((fileMachine _).watched FileStore.retire).run
      (s.view, retired) (s.acts ev) = some (s'.view, retired') :=
    Machine.exists_run_watched (run_acts hsound hs)
  have hretire : s.retire ev retired = retired' := by
    rw [retire, hrun]
    rfl
  rw [hretire]
  refine ((fileMachine _).watched FileStore.retire).run_invariant FileStore.Fillable ?_ h hc hrun
  rintro ⟨st, r⟩ act p' hst hact hstep
  obtain ⟨st', hst', rfl⟩ := Option.map_eq_some_iff.mp hstep
  exact FileStore.fillable_act hst hact hst'

/-- An engine with files of three pages, of which the first is the header. -/
def threePageFiles : EngineSystem 3 := created (MemIndex.fresh 3) (3 * kPageSize) kMinBufferCount 16

/-- Two records, and a third one that needs another file. -/
def fillAndSwitch : List (EngineEvent 3) :=
  [.put 1 100, .wake true, .async (.putAsync 2 [4096]), .async (.complete 0 true),
    .async (.putAsync 3 [4096]), .async (.newFileAllocated true), .async (.complete 0 true)]

/-- A record, one that is too large for the file, and, when there is no other file, a third
one that is not. -/
def retrySmaller : List (EngineEvent 3) :=
  [.put 1 100, .wake true, .put 2 8000, .wake false, .put 3 100, .wake true]

end EngineSystem

end SpdkKv
