import SpdkKv.AsyncEngine

/-!
# Synchronous Writes of the Engine

`put` and `del`: a record is written behind the last one of the active file, and the method
polls until the IO is done. `putRequest` and `delRequest` are what happens before a file is
chosen, `startSync` what happens between that and the poll loop, `endSync` what happens
behind it; everything else may come in between. The space of the record is taken from the
file only at the end.
-/

namespace SpdkKv

/-- `is_readable`. -/
def FileInfo.isReadable (file : FileInfo) : Bool :=
  file.state = .kActive || file.state = .kSealed || file.state = .kCompacting

/-- What `put` and `del` know before they have a file. -/
structure SyncRequest where
  key : UInt64
  alignedSize : ℕ
  isDelete : Bool
  oldSize : ℕ
  deriving DecidableEq, Repr

/-- The variables of `put` and `del` that live across the poll loop: the pointer to the
file, the file as it was before, and the record. -/
structure SyncWrite where
  place : ℕ
  file : FileInfo
  req : QueuedWrite
  deriving DecidableEq, Repr

/-- The range of the write. -/
def SyncWrite.range (w : SyncWrite) : BlobRange := w.file.rangeFor w.req.alignedSize

namespace FileSpace

variable {W : Type}

/-- Writing through a pointer changes at most the file that was found. -/
theorem getFile_modifyFile {self : FileSpace W} {i fileId : ℕ} {f : FileInfo → FileInfo}
    {file : FileInfo} (hf : ∀ file, (f file).fileId = file.fileId)
    (h : self.getFile fileId = some file) :
    ∃ file', (self.modifyFile i f).getFile fileId = some file' ∧
      (file' = file ∨ file' = f file) := by
  simp only [getFile, modifyFile] at h ⊢
  generalize self.files = files at h ⊢
  induction files generalizing i with
  | nil => cases h
  | cons a files ih =>
      rw [List.find?_cons] at h
      cases hid : a.fileId == fileId with
      | true =>
          rw [hid] at h
          obtain rfl := Option.some.inj h
          cases i with
          | zero => exact ⟨f a, by rw [List.modify_zero_cons, List.find?_cons, hf, hid], .inr rfl⟩
          | succ i => exact ⟨a, by rw [List.modify_succ_cons, List.find?_cons, hid], .inl rfl⟩
      | false =>
          rw [hid] at h
          cases i with
          | zero =>
              exact ⟨file, by rw [List.modify_zero_cons, List.find?_cons, hf, hid]; exact h,
                .inl rfl⟩
          | succ i =>
              obtain ⟨file', hfile', hor⟩ := ih (i := i) h
              exact ⟨file', by rw [List.modify_succ_cons, List.find?_cons, hid]; exact hfile',
                hor⟩

end FileSpace

namespace Engine

variable {n : ℕ}

/-- `put`, up to the choice of a file. -/
def putRequest (self : Engine n) (key : UInt64) (valueLen : ℕ) : Except KvError SyncRequest :=
  if self.state ≠ .kReady then .error .kEngineNotReady
  else if valueLen = 0 then .error .kInvalidArgument
  else .ok ⟨key, entrySize valueLen, false, 0⟩

/-- `del`, up to the choice of a file. -/
def delRequest (self : Engine n) (key : UInt64) : Except KvError SyncRequest :=
  if self.state ≠ .kReady then .error .kEngineNotReady
  else
    match self.memIndex.findEntry key with
    | none => .error .kKeyNotFound
    | some existing =>
        .ok ⟨key, tombstoneSize, true, existing.pageCount.toNat * kPageSize⟩

/-- The record gets its sequence and is submitted to a file. -/
def startSync (self : Engine n) (i : ℕ) (r : SyncRequest) : Engine n × SyncWrite :=
  let (self, seq) := self.allocateSequence
  (self, ⟨i, self.space.fileAt i, ⟨r.key, r.alignedSize, seq,
    UInt16.ofNat (r.alignedSize / kPageSize), HashUtil.tag r.key, r.isDelete, r.oldSize,
    false⟩⟩)

/-- `put` and `del` behind the poll loop. -/
def endSync (self : Engine n) (w : SyncWrite) (ok : Bool) : Engine n × KvError :=
  if ok then
    let self := if w.req.isDelete then self.completeDelete w.req.key w.req.oldGarbageSize
      else self.completePut w.req.key (entryFor w.file w.req)
    ({ self with
      space := self.space.modifyFile w.place fun file => file.grow w.req.alignedSize
      totalDataBytes := self.totalDataBytes + w.req.alignedSize }, .kSuccess)
  else (self, .kIoError)

end Engine

end SpdkKv
