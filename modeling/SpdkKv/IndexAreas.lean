import SpdkKv.IndexImage
import SpdkKv.IndexMap

/-!
# Loading the Index Areas

The first part of the recovery: `IndexLoader` reads the index areas A and B in chunks of
2 MB into one buffer, notes a version for each, selects the area with the higher version and
fills the index, either entry by entry from the buffer or by copying segments of the area
into the table.

Main definitions: `IndexAreas.load` follows the source from `load_mem_index_area_from_blob`
to the point where the incremental scan starts. `IndexAreas.chosen` says which area should
be loaded.
-/

namespace SpdkKv

/-- Bytes covered by one read of an index area: 2 MB. -/
def kMemIndexChunkSize : ℕ := 2 * 1024 * 1024

/-- Bytes of the buffer that the constructor of the loader allocates: 64 MB. -/
def kIndexBufferSize : ℕ := 64 * 1024 * 1024

/-- Size of an index segment: 1 GB. -/
def kMemIndexSegmentSize : ℕ := 1024 * 1024 * 1024

/-- The two index areas. -/
inductive IndexArea
  | a
  | b
  deriving DecidableEq, Repr

/-- The blob of an index area, and the chunks for which the read fails or there is no DMA
buffer. -/
structure AreaBlob where
  bytes : ByteMemory
  chunkFails : ℕ → Bool

/-- What the loader is given: the blobs that exist, the size from the superblock, the IO unit
of the blobstore, and the segments of the direct load that fail. -/
structure IndexAreas where
  blob : IndexArea → Option AreaBlob
  memIndexSize : UInt64
  ioUnit : ℕ
  segmentFails : ℕ → Bool

/-! ### The shared buffer -/

/-- `mem_index_buffer_`. -/
@[ext]
structure MemIndexBuffer where
  size : ℕ
  bytes : ByteMemory

namespace MemIndexBuffer

/-- `resize` to a larger size. -/
def resize (b : MemIndexBuffer) (size : ℕ) : MemIndexBuffer :=
  ⟨size, fun i => if i < b.size then b.bytes i else 0⟩

/-- The buffer is made to have at least the size. -/
def ensure (b : MemIndexBuffer) (size : ℕ) : MemIndexBuffer :=
  if b.size < size then b.resize size else b

/-- The buffer is made large enough for the header at minimum. -/
def ensureHeader (b : MemIndexBuffer) : MemIndexBuffer :=
  if b.size < sizeofSerializedHeader then b.resize (sizeofSerializedHeader + kPageSize) else b

/-- A chunk of an area is copied to its place. -/
def fill (b : MemIndexBuffer) (source : ByteMemory) (offset len : ℕ) : MemIndexBuffer :=
  { b with bytes := b.bytes.copy source offset offset len }

@[simp] theorem fill_size (b : MemIndexBuffer) (source : ByteMemory) (offset len : ℕ) :
    (b.fill source offset len).size = b.size := rfl

@[simp] theorem fill_bytes (b : MemIndexBuffer) (source : ByteMemory) (offset len : ℕ) :
    (b.fill source offset len).bytes = b.bytes.copy source offset offset len := rfl

/-- The version that `on_mem_index_area_load_complete` notes; sizes are computed modulo
`2 ^ 64`. -/
def areaVersion (b : MemIndexBuffer) : ℕ :=
  let header := imageHeader b.bytes
  let entryDataSize := header.entryCount.toNat * sizeofMemIndexEntry % 2 ^ 64
  if b.size < sizeofSerializedHeader then 0
  else if header.magic ≠ kMemIndexMagic then 0
  else if b.size < (sizeofSerializedHeader + entryDataSize) % 2 ^ 64 then 0
  else if Crc32.calculate (b.bytes.read sizeofSerializedHeader entryDataSize) ≠
      header.checksum then 0
  else header.globalSequence.toNat

/-- `can_use_memory_dump_load`. -/
def canUseMemoryDumpLoad (b : MemIndexBuffer) (n : ℕ) : Bool :=
  sizeofSerializedHeader ≤ b.size && (imageHeader b.bytes).capacity.toNat == 2 ^ n &&
    (imageHeader b.bytes).version == 1

/-- `load_by_upsert_from_buffer`. -/
def loadByUpsert {n : ℕ} (b : MemIndexBuffer) (m : MemIndex n) : MemIndex n :=
  let header := imageHeader b.bytes
  if b.size < sizeofSerializedHeader then m
  else if header.magic ≠ kMemIndexMagic then m
  else
    let filled := (imageEntries b.bytes).foldl
      (fun m src => if src.deleted then m else (m.upsert src.key src).1) m
    { filled with globalSequence := UInt32.ofNat header.globalSequence.toNat }

end MemIndexBuffer

/-! ### Copying segments into the table -/

namespace MemIndex

variable {n : ℕ}

/-- The memory of the entries of a table. -/
def entryMemory (m : MemIndex n) : ByteMemory := fun i =>
  if h : i / sizeofMemIndexEntry < 2 ^ n then
    (m.entries ⟨i / sizeofMemIndexEntry, h⟩).bytes.getD (i % sizeofMemIndexEntry) 0
  else 0

/-- The entries of a table are what a memory holds. -/
def withEntryMemory (m : MemIndex n) (memory : ByteMemory) : MemIndex n :=
  { m with entries := fun i => readIndexEntry memory (i.val * sizeofMemIndexEntry) }

/-- `rebuild_psl_array`; a stored length is a `uint8_t`. -/
def rebuildPslArray (m : MemIndex n) : MemIndex n :=
  { m with
    psl := fun i =>
      let e := m.entries i
      if e.isEmpty then 0
      else
        let idealIdx := (home n e.key).val
        let distance := if idealIdx ≤ i.val then i.val - idealIdx else 2 ^ n - idealIdx + i.val
        (distance + 1) % 2 ^ 8
    size := ((List.finRange (2 ^ n)).filter fun i =>
      !(m.entries i).isEmpty && !(m.entries i).deleted).length }

end MemIndex

/-- The reads of `load_as_memory_dump_from_blob` into the memory of the table: whole IO units
from the offset of the segment, rounded down, on. -/
def dumpSegments (blob : ByteMemory) (capacity ioUnit : ℕ) (segmentFails : ℕ → Bool)
    (memory : ByteMemory) : ByteMemory :=
  let segmentSize := capacity * sizeofMemIndexEntry / kMemIndexSegmentCount
  (List.range kMemIndexSegmentCount).foldl
    (fun memory seg =>
      if segmentFails seg then memory
      else memory.copy blob (seg * segmentSize)
        ((sizeofSerializedHeader + seg * segmentSize) / ioUnit * ioUnit)
        (segmentSize / ioUnit * ioUnit))
    memory

/-- `load_as_memory_dump_from_blob` and `on_direct_segment_loaded`. -/
def loadAsMemoryDump {n : ℕ} (blob : ByteMemory) (ioUnit : ℕ) (segmentFails : ℕ → Bool)
    (b : MemIndexBuffer) (m : MemIndex n) : MemIndex n :=
  let header := imageHeader b.bytes
  let m := m.withEntryMemory
    (dumpSegments blob header.capacity.toNat ioUnit segmentFails m.entryMemory)
  if (List.range kMemIndexSegmentCount).any segmentFails then
    -- Fall back to upsert from buffer
    b.loadByUpsert m
  else
    { m.rebuildPslArray with globalSequence := UInt32.ofNat header.globalSequence.toNat }

/-! ### Loading and comparing -/

/-- The members of `IndexLoader` that loading the areas uses. -/
structure AreaLoader where
  buffer : MemIndexBuffer
  versions : IndexArea → ℕ

/-- `read_next_mem_index_chunk` and `on_mem_index_chunk_loaded`: the chunks from `i` on,
until one fails. -/
def readChunks (blob : AreaBlob) (total : ℕ) :
    (remaining i : ℕ) → MemIndexBuffer → MemIndexBuffer
  | 0, _, b => b
  | remaining + 1, i, b =>
      let offset := i * kMemIndexChunkSize
      let chunkSize := min (total - offset) kMemIndexChunkSize
      let b := b.ensure (offset + chunkSize)
      if blob.chunkFails i then b
      else readChunks blob total remaining (i + 1) (b.fill blob.bytes offset chunkSize)

namespace IndexAreas

/-- `mem_index_total_size_`. -/
def totalSize (areas : IndexAreas) : ℕ :=
  if areas.memIndexSize = 0 then kMemIndexSegmentSize * kMemIndexSegmentCount
  else areas.memIndexSize.toNat

/-- The number of chunks of an area. -/
def chunkCount (areas : IndexAreas) : ℕ :=
  (areas.totalSize + kMemIndexChunkSize - 1) / kMemIndexChunkSize

/-- `load_mem_index_area_from_blob`, with the chunks and the completion that follow. A failed
chunk sets the version to 0, and the completion sets it again. -/
def loadArea (areas : IndexAreas) (area : IndexArea) (s : AreaLoader) : AreaLoader :=
  match areas.blob area with
  | none => { s with versions := Function.update s.versions area 0 }
  | some blob =>
      let b := readChunks blob areas.totalSize areas.chunkCount 0 s.buffer.ensureHeader
      ⟨b, Function.update s.versions area b.areaVersion⟩

/-- The buffer before anything is read. -/
def emptyBuffer : MemIndexBuffer := ⟨kIndexBufferSize, ByteMemory.zero⟩

/-- The loader before anything is read. -/
def unloaded : AreaLoader := ⟨emptyBuffer, fun _ => 0⟩

/-- The loader after area A. -/
def loadedA (areas : IndexAreas) : AreaLoader := areas.loadArea .a unloaded

/-- The loader after both areas. -/
def loaded (areas : IndexAreas) : AreaLoader := areas.loadArea .b areas.loadedA

/-- `compare_and_select_area`: the area with the higher version. -/
def selected (areas : IndexAreas) : IndexArea :=
  if areas.loaded.versions .b ≤ areas.loaded.versions .a then .a else .b

/-- The index when the incremental scan starts. -/
def load {n : ℕ} (areas : IndexAreas) (m : MemIndex n) : MemIndex n :=
  let s := areas.loaded
  if s.versions areas.selected = 0 then m
  else if s.buffer.canUseMemoryDumpLoad n then
    match areas.blob areas.selected with
    | none => s.buffer.loadByUpsert m
    | some blob => loadAsMemoryDump blob.bytes areas.ioUnit areas.segmentFails s.buffer m
  else s.buffer.loadByUpsert m

end IndexAreas

end SpdkKv
