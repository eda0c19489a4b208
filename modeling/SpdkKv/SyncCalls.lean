import SpdkKv.EngineSystem
import SpdkKv.RecordStore

/-!
# Synchronous Calls from Beginning to End

`put` and `del` of an engine that is used by nobody else and whose allocations and IO all
succeed: no callback runs while they poll, and every call is a function of the engine and its
data files. The header page of a new file is left out, since no record lies on it.

## Main results

* `EngineSystem.run_callSync`: **the calls are those of the engine**, of which every poll ends
  with success and nothing else happens meanwhile.
* `FilesInOrder.appends`: **a call appends its record** to a file and keeps the files in order.
-/

namespace SpdkKv

/-! ### The calls -/

namespace Engine

variable {n : ℕ}

/-- The file that `put` and `del` write to: the active one, or a new one behind it. -/
def chooseFile (self : Engine n) (size : ℕ) : Engine n × ℕ :=
  match self.space.roomyFile size with
  | some i => (self, i)
  | none =>
      let self := self.sealActiveFile
      let i := self.space.files.length
      ({ self with space := (self.space.pushNewFile.finishNewFile i).activate i }, i)

/-- `put` and `del` from the choice of a file on. -/
def writeSync (self : Engine n) (r : SyncRequest) : Engine n × SyncWrite × KvError :=
  let (self, i) := self.chooseFile r.alignedSize
  let (self, w) := self.startSync i r
  let (self, status) := self.endSync w true
  (self, w, status)

end Engine

namespace KvStore

variable {n : ℕ}

/-- The record of a synchronous write reaches the disk. -/
def writeSync (s : KvStore n) (r : SyncRequest) (record : UInt32 → List UInt8) :
    KvStore n × KvError :=
  let (engine, w, status) := s.engine.writeSync r
  (⟨engine, s.disk.write w.file.fileId w.file.writeOffset (record w.req.sequence)⟩, status)

theorem writeSync_disk (s : KvStore n) (r : SyncRequest) (record : UInt32 → List UInt8) :
    (s.writeSync r record).1.disk = s.disk.write (s.engine.writeSync r).2.1.file.fileId
      (s.engine.writeSync r).2.1.file.writeOffset
        (record (s.engine.writeSync r).2.1.req.sequence) := rfl

/-- `put`. -/
def put (s : KvStore n) (key : UInt64) (value : List UInt8) : KvStore n × KvError :=
  match s.engine.putRequest key value.length with
  | .error e => (s, e)
  | .ok r => s.writeSync r fun seq => (builtWrite key value seq).bytes

/-- `del`. -/
def del (s : KvStore n) (key : UInt64) : KvStore n × KvError :=
  match s.engine.delRequest key with
  | .error e => (s, e)
  | .ok r => s.writeSync r fun seq => buildEntryInplace key [] seq true

end KvStore

/-! ### What a synchronous write does -/

namespace Engine

variable {n : ℕ} (self : Engine n) (r : SyncRequest)

/-- The choice of a file leaves the index and the state alone. -/
theorem chooseFile_rest (size : ℕ) : (self.chooseFile size).1.memIndex = self.memIndex ∧
    (self.chooseFile size).1.state = self.state := by
  rw [chooseFile]
  split <;> exact ⟨rfl, rfl⟩

theorem writeSync_file : (self.writeSync r).2.1.file =
    (self.chooseFile r.alignedSize).1.space.fileAt (self.chooseFile r.alignedSize).2 := rfl

theorem writeSync_sequence :
    (self.writeSync r).2.1.req.sequence = self.memIndex.globalSequence + 1 := by
  rw [← (self.chooseFile_rest r.alignedSize).1]
  rfl

theorem writeSync_state : (self.writeSync r).1.state = self.state := by
  rw [← (self.chooseFile_rest r.alignedSize).2, writeSync]
  dsimp only
  rw [endSync, if_pos rfl]
  dsimp only
  split_ifs
  · rfl
  · rw [completePut, markGarbage]
    split <;> rfl

/-- The space of the record is taken from the file. -/
theorem writeSync_space : (self.writeSync r).1.space =
    (self.chooseFile r.alignedSize).1.space.modifyFile (self.chooseFile r.alignedSize).2
      fun file => file.grow r.alignedSize := by
  rw [writeSync]
  dsimp only
  rw [endSync, if_pos rfl]
  dsimp only
  split_ifs
  · rfl
  · rw [completePut, markGarbage]
    split <;> rfl

/-- The index is called with the entry of the record. -/
theorem writeSync_put (hput : r.isDelete = false) : (self.writeSync r).1.memIndex =
    (self.memIndex.allocateSequence.1.upsert r.key
      (entryFor (self.writeSync r).2.1.file (self.writeSync r).2.1.req)).1 := by
  rw [← (self.chooseFile_rest r.alignedSize).1]
  rw [writeSync]
  dsimp only
  rw [endSync, if_pos rfl, if_neg (by simp [startSync, hput]), completePut, markGarbage]
  split <;> rfl

theorem writeSync_del (hdel : r.isDelete = true) : (self.writeSync r).1.memIndex =
    (self.memIndex.allocateSequence.1.remove r.key).1 := by
  rw [← (self.chooseFile_rest r.alignedSize).1, writeSync]
  dsimp only
  rw [endSync, if_pos rfl, if_pos (by simp [startSync, hdel])]
  rfl

end Engine

/-! ### The calls of the engine -/

namespace EngineSystem

variable {n : ℕ}

/-- A record that was submitted completes. -/
theorem run_startSync (s : EngineSystem n) (i : ℕ) (r : SyncRequest)
    (hroom : (s.engine.startSync i r).2.range.stop ≤ s.blobSize) :
    (engineMachine n).run (s.startSync i r) [.wake true] =
      some { s with
        engine := ((s.engine.startSync i r).1.endSync (s.engine.startSync i r).2 true).1
        records := s.records ++ [(s.engine.startSync i r).2.placed] } := by
  rw [Machine.run_singleton]
  refine if_neg ?_
  rw [Bool.true_and, decide_eq_true_eq]
  exact not_lt.mpr hroom

/-- **The calls are those of the engine**: `put` and `del` go on by themselves until they have
written their record. -/
theorem run_callSync (s : EngineSystem n) (r : SyncRequest)
    (hroom : (s.engine.writeSync r).2.1.range.stop ≤ s.blobSize) :
    ∃ wakes, (engineMachine n).run (s.callSync (.ok r)) (List.replicate wakes (.wake true)) =
      some { s with
        engine := (s.engine.writeSync r).1
        records := s.records ++ [(s.engine.writeSync r).2.1.placed] } := by
  rw [callSync]
  cases hroomy : s.engine.space.roomyFile r.alignedSize with
  | some i =>
      simp only [Engine.writeSync, Engine.chooseFile, hroomy] at hroom ⊢
      exact ⟨1, s.run_startSync i r hroom⟩
  | none =>
      simp only [Engine.writeSync, Engine.chooseFile, hroomy] at hroom ⊢
      have hwrite := run_startSync { s with engine := { s.engine.sealActiveFile with
        space := (s.engine.sealActiveFile.space.pushNewFile.finishNewFile
          s.engine.sealActiveFile.space.files.length).activate
            s.engine.sealActiveFile.space.files.length } }
        s.engine.sealActiveFile.space.files.length r hroom
      rw [sealAndAllocate, allocateNewFile]
      split_ifs
      · exact ⟨3, hwrite⟩
      · exact ⟨2, hwrite⟩

end EngineSystem

/-! ### Files in order -/

/-- The files are numbered by their places and can all be read, and their records begin and
end at pages. -/
structure FilesInOrder {W : Type} (space : FileSpace W) : Prop where
  numbered : ∀ j < space.files.length, (space.fileAt j).fileId = j
  opened : ∀ j < space.files.length, (space.fileAt j).blobOpened = true
  readable : ∀ j < space.files.length, (space.fileAt j).isReadable = true
  aligned : ∀ j < space.files.length, (space.fileAt j).writeOffset % kPageSize = 0
  next : space.nextFileId = space.files.length % 2 ^ 16

namespace FilesInOrder

variable {W : Type} {space : FileSpace W}

/-- A file is found by its place. -/
theorem getFile (h : FilesInOrder space) {j : ℕ} (hj : j < space.files.length) :
    space.getFile j = some (space.fileAt j) := by
  have hat : ∀ i (hi : i < space.files.length), space.fileAt i = space.files[i] := by
    intro i hi
    rw [FileSpace.fileAt, List.getElem?_eq_getElem hi, Option.getD_some]
  refine List.find?_eq_some_iff_getElem.mpr ⟨by simpa using h.numbered j hj, j, hj,
    (hat j hj).symm, fun i hi => ?_⟩
  have hne : (space.fileAt i).fileId ≠ j := by
    rw [h.numbered i (hi.trans hj)]
    exact hi.ne
  rw [hat i (hi.trans hj)] at hne
  simpa using hne

/-- A change of a file that keeps it in order. -/
theorem modifyFile (h : FilesInOrder space) (i : ℕ) {f : FileInfo → FileInfo}
    (hid : ∀ file, (f file).fileId = file.fileId)
    (hopened : ∀ file, (f file).blobOpened = file.blobOpened)
    (hreadable : ∀ file, file.isReadable = true → (f file).isReadable = true)
    (haligned : ∀ file, file.writeOffset % kPageSize = 0 → (f file).writeOffset % kPageSize = 0) :
    FilesInOrder (space.modifyFile i f) where
  numbered := by
    intro j hj
    rw [FileSpace.length_modifyFile] at hj
    rw [space.apply_fileAt_modifyFile i j hid, h.numbered j hj]
  opened := by
    intro j hj
    rw [FileSpace.length_modifyFile] at hj
    rw [space.apply_fileAt_modifyFile i j hopened, h.opened j hj]
  readable := by
    intro j hj
    rw [FileSpace.length_modifyFile] at hj
    rw [space.fileAt_modifyFile i j f hj]
    split_ifs
    · exact hreadable _ (h.readable j hj)
    · exact h.readable j hj
  aligned := by
    intro j hj
    rw [FileSpace.length_modifyFile] at hj
    rw [space.fileAt_modifyFile i j f hj]
    split_ifs
    · exact haligned _ (h.aligned j hj)
    · exact h.aligned j hj
  next := by rw [FileSpace.length_modifyFile]; exact h.next

/-- Space that is taken at the end of a file keeps them in order. -/
theorem grow (h : FilesInOrder space) (i : ℕ) {size : ℕ} (hsize : size % kPageSize = 0) :
    FilesInOrder (space.modifyFile i fun file => file.grow size) :=
  h.modifyFile i (fun _ => rfl) (fun _ => rfl) (fun _ hr => hr) fun file ha => by
    rw [FileInfo.grow, Nat.add_mod, ha, hsize, Nat.zero_add, Nat.zero_mod]

/-- So does a sealed file. -/
theorem sealActiveFile (h : FilesInOrder space) : FilesInOrder space.sealActiveFile := by
  rw [FileSpace.sealActiveFile]
  split
  · exact h.modifyFile _ (fun _ => rfl) (fun _ => rfl) (fun _ _ => rfl) fun _ ha => ha
  · exact h

/-- A new file behind the others keeps them in order, and the others as they are. -/
theorem addFile (h : FilesInOrder space) (hcount : space.files.length < 2 ^ 16) {i : ℕ}
    (hi : i = space.files.length) :
    let space' := (space.pushNewFile.finishNewFile i).activate i
    FilesInOrder space' ∧ space'.files.length = space.files.length + 1 ∧
      ∀ j < space.files.length, space'.fileAt j = space.fileAt j := by
  subst hi
  have hnext : space.nextFileId = space.files.length := by
    rw [h.next, Nat.mod_eq_of_lt hcount]
  have hfiles : ((space.pushNewFile.finishNewFile space.files.length).activate
      space.files.length).files =
        space.files ++ [(FileInfo.fresh space.files.length).opened space.nextBlobId] :=
    (modify_length_append space.files (.fresh space.nextFileId) _).trans (by rw [hnext]; rfl)
  have hlen := congrArg List.length hfiles
  rw [List.length_append, List.length_singleton] at hlen
  have hold : ∀ j < space.files.length, ((space.pushNewFile.finishNewFile
      space.files.length).activate space.files.length).fileAt j = space.fileAt j := by
    intro j hj
    rw [FileSpace.fileAt, hfiles, List.getElem?_append_left hj, FileSpace.fileAt]
  have hnew : ((space.pushNewFile.finishNewFile space.files.length).activate
      space.files.length).fileAt space.files.length =
        (FileInfo.fresh space.files.length).opened space.nextBlobId := by
    rw [FileSpace.fileAt, hfiles, List.getElem?_append_right le_rfl, Nat.sub_self]
    rfl
  -- what holds of the old files and of the new one holds of all
  have hall : ∀ {P : ℕ → FileInfo → Prop}, (∀ j < space.files.length, P j (space.fileAt j)) →
      P space.files.length ((FileInfo.fresh space.files.length).opened space.nextBlobId) →
      ∀ j < ((space.pushNewFile.finishNewFile space.files.length).activate
        space.files.length).files.length, P j (((space.pushNewFile.finishNewFile
          space.files.length).activate space.files.length).fileAt j) := by
    intro P hP hPnew j hj
    rw [hlen] at hj
    rcases Nat.lt_succ_iff_lt_or_eq.mp hj with hlt | rfl
    · rw [hold j hlt]
      exact hP j hlt
    · rwa [hnew]
  refine ⟨⟨hall (P := fun j file => file.fileId = j) h.numbered rfl,
    hall (P := fun _ file => file.blobOpened = true) h.opened rfl,
    hall (P := fun _ file => file.isReadable = true) h.readable rfl,
    hall (P := fun _ file => file.writeOffset % kPageSize = 0) h.aligned (Nat.mod_self _), ?_⟩,
    hlen, hold⟩
  rw [hlen, ← hnext]
  rfl

/-- **The choice of a file** keeps the files in order, and where they end. -/
theorem chooseFile {n : ℕ} {self : Engine n} (h : FilesInOrder self.space) {size : ℕ}
    (hplace : (self.chooseFile size).2 < 2 ^ 16) :
    FilesInOrder (self.chooseFile size).1.space ∧
      (self.chooseFile size).2 < (self.chooseFile size).1.space.files.length ∧
      self.space.files.length ≤ (self.chooseFile size).1.space.files.length ∧
      ∀ j < self.space.files.length, ((self.chooseFile size).1.space.fileAt j).writeOffset =
        (self.space.fileAt j).writeOffset := by
  cases hroomy : self.space.roomyFile size with
  | some i =>
      have hactive := (Option.filter_eq_some_iff.mp hroomy).1
      simp only [Engine.chooseFile, hroomy]
      exact ⟨h, FileSpace.activeIndex_lt hactive, le_rfl, fun _ _ => trivial⟩
  | none =>
      have hseal : self.space.sealActiveFile.files.length = self.space.files.length ∧
          ∀ j, (self.space.sealActiveFile.fileAt j).writeOffset =
            (self.space.fileAt j).writeOffset := by
        rw [FileSpace.sealActiveFile]
        split
        · exact ⟨FileSpace.length_modifyFile _ _ _,
            fun j => self.space.apply_fileAt_modifyFile _ j fun _ => rfl⟩
        · exact ⟨rfl, fun _ => rfl⟩
      simp only [Engine.chooseFile, hroomy, Engine.sealActiveFile] at hplace ⊢
      obtain ⟨hkept, hlen, hold⟩ := h.sealActiveFile.addFile hplace rfl
      refine ⟨hkept, by rw [hlen]; exact Nat.lt_succ_self _, by rw [hlen, hseal.1]; omega, ?_⟩
      intro j hj
      rw [hold j (by rwa [hseal.1]), hseal.2]

end FilesInOrder

/-- What a synchronous write does to files that are in order: its record comes behind what its
file had, and nothing else moves. -/
structure Engine.Appends {n : ℕ} (e : Engine n) (r : SyncRequest) : Prop where
  files : FilesInOrder (e.writeSync r).1.space
  fileId : (e.writeSync r).2.1.file.fileId = (e.chooseFile r.alignedSize).2
  place : (e.chooseFile r.alignedSize).2 < (e.writeSync r).1.space.files.length
  length_le : e.space.files.length ≤ (e.writeSync r).1.space.files.length
  le_writeOffset : ∀ j < e.space.files.length,
    (e.space.fileAt j).writeOffset ≤ ((e.writeSync r).1.space.fileAt j).writeOffset
  behind : (e.chooseFile r.alignedSize).2 < e.space.files.length →
    (e.space.fileAt (e.chooseFile r.alignedSize).2).writeOffset ≤
      (e.writeSync r).2.1.file.writeOffset
  stop : ((e.writeSync r).1.space.fileAt (e.chooseFile r.alignedSize).2).writeOffset =
    (e.writeSync r).2.1.file.writeOffset + r.alignedSize
  aligned : (e.writeSync r).2.1.file.writeOffset % kPageSize = 0

/-- **A synchronous write appends its record**, if its file is one of those that the ids tell
apart. -/
theorem FilesInOrder.appends {n : ℕ} {self : Engine n} (h : FilesInOrder self.space)
    {r : SyncRequest} (hplace : (self.chooseFile r.alignedSize).2 < 2 ^ 16)
    (hsize : r.alignedSize % kPageSize = 0) : self.Appends r := by
  obtain ⟨hfiles, hlt, hle, hold⟩ := h.chooseFile hplace
  have hspace := self.writeSync_space r
  have hlen : (self.writeSync r).1.space.files.length =
      (self.chooseFile r.alignedSize).1.space.files.length := by
    rw [hspace, FileSpace.length_modifyFile]
  have hat : ∀ j < (self.chooseFile r.alignedSize).1.space.files.length,
      (self.writeSync r).1.space.fileAt j =
        if (self.chooseFile r.alignedSize).2 = j then
          ((self.chooseFile r.alignedSize).1.space.fileAt j).grow r.alignedSize
        else (self.chooseFile r.alignedSize).1.space.fileAt j := by
    intro j hj
    rw [hspace, FileSpace.fileAt_modifyFile _ _ _ _ hj]
  refine ⟨by rw [hspace]; exact hfiles.grow _ hsize, ?_, by rwa [hlen], by rwa [hlen], ?_, ?_, ?_,
    ?_⟩
  · rw [Engine.writeSync_file, hfiles.numbered _ hlt]
  · intro j hj
    rw [hat j (hj.trans_le hle), ← hold j hj]
    split_ifs
    · exact Nat.le_add_right _ _
    · exact le_rfl
  · intro hj
    rw [Engine.writeSync_file, hold _ hj]
  · rw [hat _ hlt, if_pos rfl, Engine.writeSync_file]
    rfl
  · rw [Engine.writeSync_file]
    exact hfiles.aligned _ hlt

end SpdkKv
