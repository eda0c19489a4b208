import SpdkKv.MemIndex

/-!
# Switching Index Entries

When a compaction has copied records, `CompactionTask::update_indices` makes the index point
to the copies, and `CompactionTask::revert_index_update` takes that back. Both change the
entry through the pointer that `find` returns, and only if it is where they expect it.
-/

namespace SpdkKv

/-- Where a copied record was and where its copy is. -/
structure MigratedEntry where
  key : UInt64
  oldFileId : UInt16
  oldOffsetIndex : UInt32
  newFileId : UInt16
  newOffsetIndex : UInt32
  pageCount : UInt16
  sequence : UInt32
  deriving DecidableEq, Repr

namespace MemIndexEntry

/-- The entry lies at an offset of a file. -/
def liesAt (e : MemIndexEntry) (fileId : UInt16) (offsetIndex : UInt32) : Bool :=
  e.fileId.toNat == fileId.toNat && e.offsetIndex.toNat == offsetIndex.toNat

/-- The assignments to the location of an entry; the bit fields truncate. -/
def moveTo (e : MemIndexEntry) (fileId : UInt16) (offsetIndex : UInt32) (pageCount : UInt16) :
    MemIndexEntry :=
  { e with
    fileId := BitVec.ofNat 10 fileId.toNat
    offsetIndex := BitVec.ofNat 21 offsetIndex.toNat
    pageCount := pageCount }

@[simp] theorem moveTo_key (e : MemIndexEntry) (fileId : UInt16) (offsetIndex : UInt32)
    (pageCount : UInt16) : (e.moveTo fileId offsetIndex pageCount).key = e.key := rfl

@[simp] theorem moveTo_deleted (e : MemIndexEntry) (fileId : UInt16) (offsetIndex : UInt32)
    (pageCount : UInt16) : (e.moveTo fileId offsetIndex pageCount).deleted = e.deleted := rfl

@[simp] theorem moveTo_sequence (e : MemIndexEntry) (fileId : UInt16) (offsetIndex : UInt32)
    (pageCount : UInt16) : (e.moveTo fileId offsetIndex pageCount).sequence = e.sequence := rfl

@[simp] theorem moveTo_tag (e : MemIndexEntry) (fileId : UInt16) (offsetIndex : UInt32)
    (pageCount : UInt16) : (e.moveTo fileId offsetIndex pageCount).tag = e.tag := rfl

end MemIndexEntry

namespace MemIndex

variable {n : ℕ}

/-- The entry that `find` returns is changed if it satisfies a test. -/
def changeFound (m : MemIndex n) (key : UInt64) (test : MemIndexEntry → Bool)
    (change : MemIndexEntry → MemIndexEntry) : MemIndex n :=
  match m.find key with
  | none => m
  | some idx => if test (m.entries idx) then m.setEntry idx (change (m.entries idx)) else m

/-- The turn of `update_indices` for a copied record. -/
def updateIndex (m : MemIndex n) (migrated : MigratedEntry) : MemIndex n :=
  m.changeFound migrated.key (·.liesAt migrated.oldFileId migrated.oldOffsetIndex)
    (·.moveTo migrated.newFileId migrated.newOffsetIndex migrated.pageCount)

/-- `update_indices`, for the index. -/
def updateIndices (m : MemIndex n) (migrated : List MigratedEntry) : MemIndex n :=
  migrated.foldl updateIndex m

/-- `revert_index_update`. -/
def revertIndexUpdate (m : MemIndex n) (update : MigratedEntry) : MemIndex n :=
  m.changeFound update.key (·.liesAt update.newFileId update.newOffsetIndex)
    (·.moveTo update.oldFileId update.oldOffsetIndex update.pageCount)

end MemIndex

end SpdkKv
