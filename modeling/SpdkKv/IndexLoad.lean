import SpdkKv.IndexAreas

/-!
# What Loading the Index Areas Gives

Both areas are read into one buffer, and what fills the index is that buffer, whichever area
was selected. `Loadable` says when this goes well; `LoadsArea` is what the recovery promises.

## Main results

* `liveEntry_eq_some`: the live entries of a list of distinct keys.
* `readChunks_bytes`: **what reading all chunks of an area leaves in the buffer**.
* `findEntry_loadByUpsert`: the index filled from a buffer shows the live entries of it.
* `load_chosen_area`: **when the index of the chosen area is loaded**.
* `load_older_area`: with two good areas of which A is the newer one, the entries of B are
  loaded.
-/

namespace SpdkKv

/-! ### What should be loaded -/

/-- The calls that insert the live entries of a list. -/
def liveOps (es : List MemIndexEntry) : List IndexOp :=
  (es.filter fun e => !e.deleted).map IndexOp.upsert

/-- The live entry of a key in a list; of several, the newest. -/
def liveEntry (es : List MemIndexEntry) (key : UInt64) : Option MemIndexEntry :=
  newestEntry.look (newestEntry.run id ((liveOps es).filterMap (IndexOp.cmdFor key)) none)

/-- The table has room for the live entries of a list, inserted in order. -/
structure MemIndex.HasRoomFor {n : ℕ} (m : MemIndex n) (es : List MemIndexEntry) : Prop where
  accepted : (indexMachine n).Meets AcceptedOp m (liveOps es)

/-- A buffer with a valid header and checksum. -/
def MemIndexBuffer.Valid (b : MemIndexBuffer) : Prop :=
  (imageHeader b.bytes).magic = kMemIndexMagic ∧
    sizeofSerializedHeader + (imageHeader b.bytes).entryCount.toNat * sizeofMemIndexEntry ≤
      b.size ∧
    Crc32.calculate (b.bytes.read sizeofSerializedHeader
      ((imageHeader b.bytes).entryCount.toNat * sizeofMemIndexEntry)) =
        (imageHeader b.bytes).checksum

instance (b : MemIndexBuffer) : Decidable b.Valid := inferInstanceAs (Decidable (_ ∧ _ ∧ _))

/-- What reading an area without an error leaves in the buffer. -/
def AreaBlob.image (blob : AreaBlob) (total : ℕ) : MemIndexBuffer where
  size := max total kIndexBufferSize
  bytes := fun i => if i < total then blob.bytes i else 0

namespace IndexAreas

/-- No chunk of the blob fails. -/
def NoChunkFails (areas : IndexAreas) (blob : AreaBlob) : Prop :=
  ∀ i < areas.chunkCount, blob.chunkFails i = false

instance (areas : IndexAreas) (blob : AreaBlob) : Decidable (areas.NoChunkFails blob) :=
  inferInstanceAs (Decidable (∀ _, _ → _))

/-- The area exists and is read without an error. -/
def ReadOk (areas : IndexAreas) (area : IndexArea) : Prop :=
  ∃ blob, areas.blob area = some blob ∧ areas.NoChunkFails blob

/-- The image of an area that is read without an error and has a valid header and checksum. -/
def good (areas : IndexAreas) (area : IndexArea) : Option MemIndexBuffer :=
  (areas.blob area).bind fun blob =>
    if areas.NoChunkFails blob ∧ (blob.image areas.totalSize).Valid then
      some (blob.image areas.totalSize)
    else none

/-- The good area with the higher version, and its image. -/
def chosen (areas : IndexAreas) : Option (IndexArea × MemIndexBuffer) :=
  match areas.good .a, areas.good .b with
  | some x, some y =>
      if (imageHeader y.bytes).globalSequence ≤ (imageHeader x.bytes).globalSequence then
        some (.a, x)
      else some (.b, y)
  | some x, none => some (.a, x)
  | none, some y => some (.b, y)
  | none, none => none

/-- What the recovery promises: the chosen area is selected, an area whose read failed has no
version, and the index has the live entries and the sequence of the chosen area. -/
structure LoadsArea {n : ℕ} (areas : IndexAreas) (m : MemIndex n) (area : IndexArea)
    (image : MemIndexBuffer) : Prop where
  selected : areas.selected = area
  rejected : ∀ x, ¬ areas.ReadOk x → areas.loaded.versions x = 0
  entries : ∀ key, (areas.load m).findEntry key = liveEntry (imageEntries image.bytes) key
  sequence : (areas.load m).globalSequence.toNat =
    (imageHeader image.bytes).globalSequence.toNat

/-- When it keeps the promise. -/
structure Loadable {n : ℕ} (areas : IndexAreas) (m : MemIndex n) (area : IndexArea)
    (image : MemIndexBuffer) : Prop where
  /-- The chosen area is the one that is read last. -/
  last : area = .b ∨ areas.blob .b = none
  /-- An area A that is not good is rejected by what has been read of it. -/
  rejected : areas.good .a = none → areas.blob .a ≠ none →
    areas.loadedA.buffer.areaVersion = 0
  /-- Version 0 counts as invalid. -/
  nonzero : (imageHeader image.bytes).globalSequence ≠ 0
  /-- The sequence of the index has 32 bits. -/
  fits : (imageHeader image.bytes).globalSequence.toNat < 2 ^ 32
  /-- The entries are inserted one by one. -/
  upsert : image.canUseMemoryDumpLoad n = false
  /-- The index takes them. -/
  room : m.HasRoomFor (imageEntries image.bytes)

end IndexAreas

/-! ### Filling the index from a buffer -/

namespace MemIndex

variable {n : ℕ}

/-- The index before anything is loaded. -/
def unloaded (n : ℕ) (sequence : UInt32) : MemIndex n :=
  { fresh n with globalSequence := sequence }

theorem stored_unloaded (sequence : UInt32) (key : UInt64) :
    (unloaded n sequence).stored key = none := stored_fresh n key

end MemIndex

theorem foldl_liveOps {n : ℕ} (es : List MemIndexEntry) (m : MemIndex n) :
    es.foldl (fun m src => if src.deleted then m else (m.upsert src.key src).1) m =
      (liveOps es).foldl MemIndex.applyOp m := by
  induction es generalizing m with
  | nil => rfl
  | cons e es ih =>
      cases hd : e.deleted with
      | true =>
          have hrest : liveOps (e :: es) = liveOps es := by
            rw [liveOps, List.filter_cons_of_neg (by simp [hd]), liveOps]
          rw [List.foldl_cons, hd, if_pos rfl, ih, hrest]
      | false =>
          have hrest : liveOps (e :: es) = .upsert e :: liveOps es := by
            rw [liveOps, List.filter_cons_of_pos (by simp [hd]), List.map_cons, liveOps]
          rw [List.foldl_cons, hd, if_neg Bool.false_ne_true, ih, hrest]
          rfl

/-- Entries of other keys do not command the register of a key. -/
theorem filterMap_cmdFor_eq_nil {l : List MemIndexEntry} {key : UInt64}
    (h : key ∉ l.map MemIndexEntry.key) :
    (l.map IndexOp.upsert).filterMap (IndexOp.cmdFor key) = [] := by
  rw [List.filterMap_eq_nil_iff]
  intro op hop
  obtain ⟨e, he, rfl⟩ := List.mem_map.mp hop
  exact if_neg fun hk => h (List.mem_map.mpr ⟨e, he, hk⟩)

/-- A key that no live entry of the list has is not live. -/
theorem liveEntry_eq_none {es : List MemIndexEntry} {key : UInt64}
    (h : ∀ e ∈ es, e.deleted = false → e.key ≠ key) : liveEntry es key = none := by
  rw [liveEntry, liveOps, filterMap_cmdFor_eq_nil]
  · rfl
  · intro hmem
    obtain ⟨e, he, hk⟩ := List.mem_map.mp hmem
    obtain ⟨he, hd⟩ := List.mem_filter.mp he
    exact h e he (by simpa using hd) hk

/-- When live entries have distinct keys, each of them is the live entry of its key. -/
theorem liveEntry_eq_some {es : List MemIndexEntry}
    (hnodup : ((es.filter fun e => !e.deleted).map MemIndexEntry.key).Nodup) {e : MemIndexEntry}
    (he : e ∈ es) (hlive : e.deleted = false) :
    liveEntry es e.key = some (MemIndex.tagged e.key e) := by
  have hmem : e ∈ es.filter fun e => !e.deleted :=
    List.mem_filter.mpr ⟨he, by rw [hlive]; rfl⟩
  obtain ⟨l, r, hl⟩ := List.append_of_mem hmem
  rw [hl, List.map_append, List.map_cons] at hnodup
  obtain ⟨-, hr, hdisj⟩ := List.nodup_append.mp hnodup
  have hleft : e.key ∉ l.map MemIndexEntry.key := fun h =>
    hdisj _ h _ List.mem_cons_self rfl
  have hself : IndexOp.cmdFor e.key (.upsert e) = some (.put (MemIndex.tagged e.key e)) :=
    if_pos rfl
  rw [liveEntry, liveOps, hl, List.map_append, List.map_cons, List.filterMap_append,
    List.filterMap_cons, hself, filterMap_cmdFor_eq_nil hleft,
    filterMap_cmdFor_eq_nil (List.nodup_cons.mp hr).1]
  show newestEntry.look (some (MemIndex.tagged e.key e)) = _
  rw [NewestWins.look_some]
  exact if_neg (by
    show ¬ (MemIndex.tagged e.key e).deleted = true
    rw [MemIndex.tagged_deleted, hlive]
    exact Bool.false_ne_true)

/-- Entries that find room fill an empty index with the live ones among them. -/
theorem findEntry_foldl_liveOps {n : ℕ} {es : List MemIndexEntry} {sequence : UInt32}
    (h : (MemIndex.unloaded n sequence).HasRoomFor es) (sequence' : UInt32) (key : UInt64) :
    ({ (liveOps es).foldl MemIndex.applyOp (.unloaded n sequence) with
        globalSequence := sequence' } : MemIndex n).findEntry key = liveEntry es key := by
  have hstart : (MemIndex.unloaded n sequence).Wf := (MemIndex.fresh_wf n).withGlobalSequence
  obtain ⟨hwf, hst⟩ := hstart.stored_run h.accepted key
  rw [MemIndex.stored_unloaded] at hst
  refine (hwf.withGlobalSequence.findEntry_eq key).trans ?_
  show (((liveOps es).foldl MemIndex.applyOp (.unloaded n sequence)).stored key).filter _ = _
  rw [hst]
  rfl

namespace MemIndexBuffer

variable {n : ℕ} {b : MemIndexBuffer}

theorem Valid.size_ge (h : b.Valid) : sizeofSerializedHeader ≤ b.size :=
  (Nat.le_add_right _ _).trans h.2.1

/-- The version of a valid buffer. -/
theorem Valid.areaVersion_eq (h : b.Valid) (hsize : b.size < 2 ^ 64) :
    b.areaVersion = (imageHeader b.bytes).globalSequence.toNat := by
  have hge := h.size_ge
  obtain ⟨hmagic, hfit, hcrc⟩ := h
  have hdata := Nat.mod_eq_of_lt (((Nat.le_add_left _ _).trans hfit).trans_lt hsize)
  have hend := Nat.mod_eq_of_lt (hfit.trans_lt hsize)
  simp only [areaVersion, hdata, hend]
  rw [if_neg (not_lt.mpr hge), if_neg (not_not.mpr hmagic), if_neg (not_lt.mpr hfit),
    if_neg (not_not.mpr hcrc)]

theorem loadByUpsert_of_magic (m : MemIndex n) (hsize : sizeofSerializedHeader ≤ b.size)
    (hmagic : (imageHeader b.bytes).magic = kMemIndexMagic) :
    b.loadByUpsert m =
      { (liveOps (imageEntries b.bytes)).foldl MemIndex.applyOp m with
        globalSequence := UInt32.ofNat (imageHeader b.bytes).globalSequence.toNat } := by
  rw [loadByUpsert]
  dsimp only
  rw [if_neg (by omega), if_neg (not_not.mpr hmagic), foldl_liveOps]

/-- **An index filled from a buffer shows its live entries.** -/
theorem findEntry_loadByUpsert {sequence : UInt32} (hsize : sizeofSerializedHeader ≤ b.size)
    (hmagic : (imageHeader b.bytes).magic = kMemIndexMagic)
    (h : (MemIndex.unloaded n sequence).HasRoomFor (imageEntries b.bytes)) (key : UInt64) :
    (b.loadByUpsert (.unloaded n sequence)).findEntry key =
      liveEntry (imageEntries b.bytes) key := by
  rw [loadByUpsert_of_magic _ hsize hmagic]
  exact findEntry_foldl_liveOps h _ key

end MemIndexBuffer

/-! ### Reading an area -/

/-- What the buffer satisfies from the first area on: behind its end, and behind the part
that areas fill, there is nothing. -/
structure MemIndexBuffer.Within (b : MemIndexBuffer) (total : ℕ) : Prop where
  ge : kIndexBufferSize ≤ b.size
  le : b.size ≤ max total kIndexBufferSize
  zero : ∀ i, b.size ≤ i ∨ total ≤ i → b.bytes i = 0

namespace MemIndexBuffer

variable {b : MemIndexBuffer} {total size : ℕ}

@[simp] theorem ensure_size (b : MemIndexBuffer) (size : ℕ) :
    (b.ensure size).size = max b.size size := by
  rw [ensure]
  split_ifs with h
  · exact (Nat.max_eq_right (Nat.le_of_lt h)).symm
  · exact (Nat.max_eq_left (Nat.le_of_not_lt h)).symm

theorem Within.ensure_bytes (h : b.Within total) (size : ℕ) :
    (b.ensure size).bytes = b.bytes := by
  rw [ensure]
  split_ifs
  · funext i
    rw [resize]
    dsimp only
    split_ifs with hi
    · rfl
    · exact (h.zero i (Or.inl (Nat.le_of_not_lt hi))).symm
  · rfl

theorem Within.ensure (h : b.Within total) (hsize : size ≤ total) :
    (b.ensure size).Within total where
  ge := by
    rw [ensure_size]
    exact h.ge.trans (Nat.le_max_left _ _)
  le := by
    rw [ensure_size]
    exact Nat.max_le.mpr ⟨h.le, hsize.trans (Nat.le_max_left _ _)⟩
  zero i hi := by
    rw [h.ensure_bytes]
    rw [ensure_size] at hi
    exact h.zero i (hi.imp_left fun h => (Nat.le_max_left _ _).trans h)

/-- Copying a part of an area keeps what is behind the end. -/
theorem Within.fill (h : b.Within total) (source : ByteMemory) {offset len : ℕ}
    (hsize : offset + len ≤ b.size) (htotal : offset + len ≤ total) :
    (b.fill source offset len).Within total where
  ge := h.ge
  le := h.le
  zero i hi := by
    rw [fill_size] at hi
    refine (if_neg fun hin => ?_).trans (h.zero i hi)
    omega

end MemIndexBuffer

section Chunks

variable {blob : AreaBlob} {total : ℕ}

/-- The turn for a chunk. -/
theorem within_turn {b : MemIndexBuffer} (h : b.Within total) {i : ℕ}
    (hi : i * kMemIndexChunkSize < total) :
    ((b.ensure (i * kMemIndexChunkSize +
        min (total - i * kMemIndexChunkSize) kMemIndexChunkSize)).fill blob.bytes
      (i * kMemIndexChunkSize)
      (min (total - i * kMemIndexChunkSize) kMemIndexChunkSize)).Within total := by
  have hlen : i * kMemIndexChunkSize + min (total - i * kMemIndexChunkSize) kMemIndexChunkSize ≤
      total := by omega
  refine (h.ensure hlen).fill blob.bytes ?_ hlen
  rw [MemIndexBuffer.ensure_size]
  exact Nat.le_max_right _ _

/-- Reading chunks keeps what is behind the end. -/
theorem within_readChunks (remaining : ℕ) : ∀ (i : ℕ) {b : MemIndexBuffer}, b.Within total →
    (∀ j < i + remaining, j * kMemIndexChunkSize < total) →
    (readChunks blob total remaining i b).Within total := by
  induction remaining with
  | zero => exact fun i b h _ => h
  | succ remaining ih =>
      intro i b h hlt
      have hi := hlt i (by omega)
      rw [readChunks]
      split_ifs
      · exact h.ensure (by omega)
      · exact ih (i + 1) (within_turn h hi) fun j hj => hlt j (by omega)

/-- **What reading all chunks leaves in the buffer.** -/
theorem readChunks_bytes (remaining : ℕ) : ∀ (i : ℕ) {b : MemIndexBuffer}, b.Within total →
    (∀ j < i + remaining, j * kMemIndexChunkSize < total) →
    (∀ j, i ≤ j → j < i + remaining → blob.chunkFails j = false) →
    (readChunks blob total remaining i b).bytes =
      b.bytes.copy blob.bytes (i * kMemIndexChunkSize) (i * kMemIndexChunkSize)
        (min (total - i * kMemIndexChunkSize) (remaining * kMemIndexChunkSize)) := by
  induction remaining with
  | zero =>
      intro i b _ _ _
      rw [readChunks, Nat.zero_mul, Nat.min_zero, ByteMemory.copy_zero]
  | succ remaining ih =>
      intro i b h hlt hok
      have hi := hlt i (by omega)
      rw [readChunks, if_neg (by rw [hok i le_rfl (by omega)]; exact Bool.false_ne_true),
        ih (i + 1) (within_turn h hi) (fun j hj => hlt j (by omega))
          fun j hij hj => hok j (by omega) (by omega)]
      rw [MemIndexBuffer.fill_bytes, h.ensure_bytes, Nat.succ_mul, Nat.succ_mul]
      generalize i * kMemIndexChunkSize = offset at hi ⊢
      generalize remaining * kMemIndexChunkSize = rest
      generalize kMemIndexChunkSize = chunk
      rcases Nat.le_total (total - offset) chunk with hlast | hmore
      · rw [Nat.min_eq_left hlast, show total - (offset + chunk) = 0 by omega, Nat.zero_min,
          ByteMemory.copy_zero, Nat.min_eq_left (by omega)]
      · rw [Nat.min_eq_right hmore, ByteMemory.copy_copy]
        congr 1
        omega

/-- The end of chunk `i`. -/
theorem min_succ_mul_le {i chunk : ℕ} (size : ℕ) : min total ((i + 1) * chunk) ≤
    max size (i * chunk + min (total - i * chunk) chunk) := by
  rw [Nat.add_mul, Nat.one_mul]
  omega

/-- The buffer then reaches to the end of the area. -/
theorem readChunks_size (remaining : ℕ) : ∀ (i : ℕ) {b : MemIndexBuffer},
    (∀ j, i ≤ j → j < i + remaining → blob.chunkFails j = false) →
    min total (i * kMemIndexChunkSize) ≤ b.size →
    min total ((i + remaining) * kMemIndexChunkSize) ≤
      (readChunks blob total remaining i b).size := by
  induction remaining with
  | zero =>
      intro i b _ h
      rw [Nat.add_zero]
      exact h
  | succ remaining ih =>
      intro i b hok hb
      rw [readChunks, if_neg (by rw [hok i le_rfl (by omega)]; exact Bool.false_ne_true),
        show i + (remaining + 1) = i + 1 + remaining by omega]
      refine ih (i + 1) (fun j hij hj => hok j (by omega) (by omega)) ?_
      rw [MemIndexBuffer.fill_size, MemIndexBuffer.ensure_size]
      exact min_succ_mul_le b.size

end Chunks

namespace IndexAreas

variable {areas : IndexAreas} {area : IndexArea} {blob : AreaBlob} {s : AreaLoader}

/-- Every chunk begins inside of the area. -/
theorem chunk_lt {j : ℕ} (h : j < areas.chunkCount) : j * kMemIndexChunkSize < areas.totalSize := by
  have hpos : 0 < kMemIndexChunkSize := by decide
  have := (Nat.le_div_iff_mul_le hpos).mp (Nat.succ_le_of_lt h)
  rw [Nat.succ_mul] at this
  omega

/-- The chunks reach to the end of the area. -/
theorem totalSize_le (areas : IndexAreas) :
    areas.totalSize ≤ areas.chunkCount * kMemIndexChunkSize := by
  have hpos : 0 < kMemIndexChunkSize := by decide
  have := @Nat.lt_div_mul_add (areas.totalSize + kMemIndexChunkSize - 1) _ hpos
  rw [chunkCount]
  omega

/-- The buffer is as it is before the first area or after one. -/
def Ready (areas : IndexAreas) (b : MemIndexBuffer) : Prop := b.Within areas.totalSize

/-- The buffer has room for the header from the constructor on. -/
theorem Ready.ensureHeader {b : MemIndexBuffer} (h : areas.Ready b) :
    b.ensureHeader.Within areas.totalSize := by
  have hheader : sizeofSerializedHeader ≤ kIndexBufferSize := by decide
  rw [MemIndexBuffer.ensureHeader, if_neg (Nat.not_lt.mpr (hheader.trans h.ge))]
  exact h

theorem Ready.loadArea (h : areas.Ready s.buffer) (area : IndexArea) :
    areas.Ready (areas.loadArea area s).buffer := by
  rw [IndexAreas.loadArea]
  cases areas.blob area with
  | none => exact h
  | some blob =>
      exact within_readChunks _ 0 h.ensureHeader fun j hj => chunk_lt (by omega)

/-- An area that does not exist is noted as invalid. -/
theorem loadArea_none (h : areas.blob area = none) :
    areas.loadArea area s = ⟨s.buffer, Function.update s.versions area 0⟩ := by
  rw [loadArea, h]

/-- **An area that is read without an error fills the buffer**, whatever was there before. -/
theorem loadArea_some (h : areas.Ready s.buffer) (hblob : areas.blob area = some blob)
    (hok : areas.NoChunkFails blob) :
    areas.loadArea area s = ⟨blob.image areas.totalSize,
      Function.update s.versions area (blob.image areas.totalSize).areaVersion⟩ := by
  have hb := h.ensureHeader
  have hlt : ∀ j < 0 + areas.chunkCount, j * kMemIndexChunkSize < areas.totalSize :=
    fun j hj => chunk_lt (by omega)
  have hno : ∀ j, 0 ≤ j → j < 0 + areas.chunkCount → blob.chunkFails j = false :=
    fun j _ hj => hok j (by omega)
  suffices hread : readChunks blob areas.totalSize areas.chunkCount 0 s.buffer.ensureHeader =
      blob.image areas.totalSize by
    rw [loadArea, hblob]
    dsimp only
    rw [hread]
  have hw := @within_readChunks blob _ areas.chunkCount 0 _ hb hlt
  have hbytes := @readChunks_bytes blob _ areas.chunkCount 0 _ hb hlt hno
  have hsize := @readChunks_size blob areas.totalSize areas.chunkCount 0 s.buffer.ensureHeader
    hno (by rw [Nat.zero_mul, Nat.min_zero]; exact Nat.zero_le _)
  have htotal := areas.totalSize_le
  rw [Nat.zero_add, Nat.min_eq_left htotal] at hsize
  rw [Nat.zero_mul, Nat.sub_zero, Nat.min_eq_left htotal] at hbytes
  refine MemIndexBuffer.ext (Nat.le_antisymm hw.le (Nat.max_le.mpr ⟨hsize, hw.ge⟩)) ?_
  rw [hbytes]
  funext i
  show (if 0 ≤ i ∧ i < 0 + areas.totalSize then blob.bytes (0 + (i - 0)) else _) =
    if i < areas.totalSize then blob.bytes i else 0
  by_cases hi : i < areas.totalSize
  · rw [if_pos hi, if_pos ⟨Nat.zero_le i, by omega⟩, Nat.zero_add, Nat.sub_zero]
  · rw [if_neg hi, if_neg (by omega)]
    exact hb.zero i (Or.inr (Nat.le_of_not_lt hi))

theorem good_eq_some_iff {image : MemIndexBuffer} : areas.good area = some image ↔
    ∃ blob, areas.blob area = some blob ∧ areas.NoChunkFails blob ∧ image.Valid ∧
      image = blob.image areas.totalSize := by
  rw [good, Option.bind_eq_some_iff]
  refine exists_congr fun blob => and_congr_right fun _ => ?_
  rw [Option.ite_none_right_eq_some, Option.some.injEq]
  constructor
  · rintro ⟨⟨hok, hvalid⟩, rfl⟩
    exact ⟨hok, hvalid, rfl⟩
  · rintro ⟨hok, hvalid, rfl⟩
    exact ⟨⟨hok, hvalid⟩, rfl⟩

/-- The size of an area has 64 bits. -/
theorem image_size_lt (blob : AreaBlob) : (blob.image areas.totalSize).size < 2 ^ 64 := by
  have htotal : areas.totalSize < 2 ^ 64 := by
    rw [totalSize]
    split_ifs
    · decide
    · exact areas.memIndexSize.toNat_lt
  exact Nat.max_lt.mpr ⟨htotal, by decide⟩

/-- A good area fills the buffer and its version is its sequence. -/
theorem loadArea_good (h : areas.Ready s.buffer) {image : MemIndexBuffer}
    (hgood : areas.good area = some image) :
    areas.loadArea area s = ⟨image,
      Function.update s.versions area (imageHeader image.bytes).globalSequence.toNat⟩ := by
  obtain ⟨blob, hblob, hok, hvalid, rfl⟩ := good_eq_some_iff.mp hgood
  rw [loadArea_some h hblob hok, hvalid.areaVersion_eq (image_size_lt blob)]

/-! ### The selected area -/

theorem ready_unloaded (areas : IndexAreas) : areas.Ready unloaded.buffer where
  ge := le_rfl
  le := Nat.le_max_right _ _
  zero := fun _ _ => rfl

theorem ready_loadedA (areas : IndexAreas) : areas.Ready areas.loadedA.buffer :=
  areas.ready_unloaded.loadArea .a

/-- The version of an area that exists is read off the buffer. -/
theorem versions_loadArea (h : areas.blob area ≠ none) :
    (areas.loadArea area s).versions area = (areas.loadArea area s).buffer.areaVersion := by
  obtain ⟨blob, hblob⟩ := Option.ne_none_iff_exists'.mp h
  simp only [loadArea, hblob, Function.update_self]

/-- The version of the other area stays. -/
theorem versions_loadArea_of_ne {other : IndexArea} (h : other ≠ area) :
    (areas.loadArea area s).versions other = s.versions other := by
  cases hblob : areas.blob area with
  | none => simp only [loadArea_none hblob, Function.update_of_ne h]
  | some blob => simp only [loadArea, hblob, Function.update_of_ne h]

/-- The version of an area A that is good. -/
theorem loadedA_good {x : MemIndexBuffer} (h : areas.good .a = some x) :
    areas.loadedA.buffer = x ∧
      areas.loadedA.versions .a = (imageHeader x.bytes).globalSequence.toNat := by
  have hload := loadArea_good areas.ready_unloaded h
  exact ⟨congrArg AreaLoader.buffer hload, by simp only [loadedA, hload, Function.update_self]⟩

/-- The version of an area A, if the check rejects what was read of it. -/
theorem loadedA_bad (h : areas.blob .a ≠ none → areas.loadedA.buffer.areaVersion = 0) :
    areas.loadedA.versions .a = 0 := by
  by_cases hblob : areas.blob .a = none
  · simp only [loadedA, loadArea_none hblob, Function.update_self]
  · exact (versions_loadArea hblob).trans (h hblob)

theorem versions_a_loaded (areas : IndexAreas) :
    areas.loaded.versions .a = areas.loadedA.versions .a :=
  versions_loadArea_of_ne (show IndexArea.a ≠ .b by decide)

variable {n : ℕ} {sequence : UInt32} {image : MemIndexBuffer}

/-- What the loader does with a buffer that holds the image of the selected area. -/
theorem LoadsArea.of_loaded (hbuffer : areas.loaded.buffer = image)
    (hmagic : (imageHeader image.bytes).magic = kMemIndexMagic)
    (hsize : sizeofSerializedHeader ≤ image.size)
    (hversion : areas.loaded.versions area = (imageHeader image.bytes).globalSequence.toNat)
    (hselected : areas.selected = area)
    (hrejected : ∀ x, ¬ areas.ReadOk x → areas.loaded.versions x = 0)
    (h : areas.Loadable (.unloaded n sequence) area image) :
    areas.LoadsArea (.unloaded n sequence) area image := by
  have hload : areas.load (.unloaded n sequence) = image.loadByUpsert (.unloaded n sequence) := by
    have hnonzero : ¬ areas.loaded.versions areas.selected = 0 := by
      rw [hselected, hversion]
      exact fun h0 => h.nonzero (UInt64.toNat_inj.mp h0)
    rw [load, if_neg hnonzero, hbuffer, h.upsert, if_neg Bool.false_ne_true]
  refine ⟨hselected, hrejected, fun key => ?_, ?_⟩
  · rw [hload]
    exact image.findEntry_loadByUpsert hsize hmagic h.room key
  · rw [hload, MemIndexBuffer.loadByUpsert_of_magic _ hsize hmagic]
    exact UInt32.toNat_ofNat_of_lt' h.fits

theorem good_of_chosen (h : areas.chosen = some (area, image)) :
    areas.good area = some image := by
  rw [chosen] at h
  split at h
  · next hx hy =>
      split_ifs at h <;> cases h
      · exact hx
      · exact hy
  · next hx _ => cases h; exact hx
  · next hy => cases h; exact hy
  · cases h

/-- Area B is chosen only if it is newer than a good area A. -/
theorem lt_of_chosen_b (h : areas.chosen = some (.b, image)) {x : MemIndexBuffer}
    (hx : areas.good .a = some x) :
    (imageHeader x.bytes).globalSequence < (imageHeader image.bytes).globalSequence := by
  cases hy : areas.good .b with
  | none =>
      simp only [chosen, hx, hy] at h
      cases h
  | some y =>
      simp only [chosen, hx, hy] at h
      by_cases hle :
          (imageHeader y.bytes).globalSequence ≤ (imageHeader x.bytes).globalSequence
      · rw [if_pos hle] at h
        cases h
      · rw [if_neg hle] at h
        obtain rfl : y = image := congrArg Prod.snd (Option.some.inj h)
        exact UInt64.not_le.mp hle

/-- **When the index of the chosen area is loaded.** -/
theorem loadsArea_of_loadable (hchosen : areas.chosen = some (area, image))
    (h : areas.Loadable (.unloaded n sequence) area image) :
    areas.LoadsArea (.unloaded n sequence) area image := by
  have hgood := good_of_chosen hchosen
  obtain ⟨blob, hblob, hok, hvalid, -⟩ := good_eq_some_iff.mp hgood
  have hnonzero : (imageHeader image.bytes).globalSequence.toNat ≠ 0 :=
    fun h0 => h.nonzero (UInt64.toNat_inj.mp h0)
  have hbad (hnone : areas.good .a = none) : areas.loaded.versions .a = 0 := by
    rw [versions_a_loaded, loadedA_bad fun hne => h.rejected hnone hne]
  cases area with
  | a =>
      have hnob := h.last.resolve_left (by decide)
      obtain ⟨hbuffer, hversion⟩ := loadedA_good hgood
      have hloaded := @loadArea_none areas .b areas.loadedA hnob
      have hb : areas.loaded.versions .b = 0 := by
        simp only [loaded, hloaded, Function.update_self]
      refine LoadsArea.of_loaded ?_ hvalid.1 hvalid.size_ge ?_ ?_ (fun x hx => ?_) h
      · simp only [loaded, hloaded, hbuffer]
      · rw [versions_a_loaded, hversion]
      · rw [selected, hb, if_pos (Nat.zero_le _)]
      · cases x with
        | a => exact absurd ⟨blob, hblob, hok⟩ hx
        | b => exact hb
  | b =>
      have hloaded := loadArea_good areas.ready_loadedA hgood
      have hb : areas.loaded.versions .b = (imageHeader image.bytes).globalSequence.toNat := by
        simp only [loaded, hloaded, Function.update_self]
      refine LoadsArea.of_loaded ?_ hvalid.1 hvalid.size_ge hb ?_ (fun x hx => ?_) h
      · simp only [loaded, hloaded]
      · refine if_neg ?_
        rw [hb, not_le]
        cases hx : areas.good .a with
        | none =>
            rw [hbad hx]
            exact Nat.pos_of_ne_zero hnonzero
        | some x =>
            rw [versions_a_loaded, (loadedA_good hx).2]
            exact UInt64.lt_iff_toNat_lt.mp (lt_of_chosen_b hchosen hx)
      · cases x with
        | a =>
            refine hbad (Option.eq_none_iff_forall_ne_some.mpr fun y hy => hx ?_)
            obtain ⟨blob, hblob, hok, -, -⟩ := good_eq_some_iff.mp hy
            exact ⟨blob, hblob, hok⟩
        | b => exact absurd ⟨blob, hblob, hok⟩ hx

/-- Of two good areas, B fills the index even if A is newer; that is right exactly if both
have the same live entries and the same sequence. -/
theorem loadsArea_a_iff {x y : MemIndexBuffer} (hx : areas.good .a = some x)
    (hy : areas.good .b = some y)
    (hle : (imageHeader y.bytes).globalSequence ≤ (imageHeader x.bytes).globalSequence)
    (hnonzero : (imageHeader x.bytes).globalSequence ≠ 0)
    (hfits : (imageHeader x.bytes).globalSequence.toNat < 2 ^ 32)
    (hupsert : y.canUseMemoryDumpLoad n = false)
    (hroom : (MemIndex.unloaded n sequence).HasRoomFor (imageEntries y.bytes)) :
    areas.LoadsArea (.unloaded n sequence) .a x ↔
      (∀ key, liveEntry (imageEntries y.bytes) key = liveEntry (imageEntries x.bytes) key) ∧
        (imageHeader y.bytes).globalSequence = (imageHeader x.bytes).globalSequence := by
  obtain ⟨blobA, hblobA, hokA, -⟩ := good_eq_some_iff.mp hx
  obtain ⟨blobB, hblobB, hokB, hvalid, -⟩ := good_eq_some_iff.mp hy
  have hloaded := loadArea_good areas.ready_loadedA hy
  have hversionB : areas.loaded.versions .b = (imageHeader y.bytes).globalSequence.toNat := by
    simp only [loaded, hloaded, Function.update_self]
  have hversionA : areas.loaded.versions .a = (imageHeader x.bytes).globalSequence.toNat := by
    rw [versions_a_loaded, (loadedA_good hx).2]
  have hle' := UInt64.le_iff_toNat_le.mp hle
  have hselected : areas.selected = .a := by
    rw [selected, hversionA, hversionB, if_pos hle']
  have hload : areas.load (.unloaded n sequence) = y.loadByUpsert (.unloaded n sequence) := by
    have hversion : ¬ areas.loaded.versions areas.selected = 0 := by
      rw [hselected, hversionA]
      exact fun h0 => hnonzero (UInt64.toNat_inj.mp h0)
    have hbuffer : areas.loaded.buffer = y := by simp only [loaded, hloaded]
    rw [load, if_neg hversion, hbuffer, hupsert, if_neg Bool.false_ne_true]
  have hfind := y.findEntry_loadByUpsert hvalid.size_ge hvalid.1 hroom
  have hseq : (areas.load (.unloaded n sequence)).globalSequence.toNat =
      (imageHeader y.bytes).globalSequence.toNat := by
    rw [hload, MemIndexBuffer.loadByUpsert_of_magic _ hvalid.size_ge hvalid.1]
    exact UInt32.toNat_ofNat_of_lt' (hle'.trans_lt hfits)
  constructor
  · intro h
    refine ⟨fun key => ?_, UInt64.toNat_inj.mp (hseq.symm.trans h.sequence)⟩
    rw [← hfind, ← hload, h.entries]
  · rintro ⟨hentries, hsequence⟩
    refine ⟨hselected, fun z hz => ?_, fun key => ?_, ?_⟩
    · cases z with
      | a => exact absurd ⟨blobA, hblobA, hokA⟩ hz
      | b => exact absurd ⟨blobB, hblobB, hokB⟩ hz
    · rw [hload, hfind, hentries]
    · rw [hseq, hsequence]

/-- **Which area is loaded.** The chosen area is, as promised, when it is the one that is
read last, its entries are inserted one by one and what was read of an area A that is not
good is rejected. When A is chosen from two good areas, the promise is kept exactly if area
B has the same contents. -/
theorem load_chosen_area (hchosen : areas.chosen = some (area, image)) :
    (areas.Loadable (.unloaded n sequence) area image →
      areas.LoadsArea (.unloaded n sequence) area image) ∧
    ∀ y, area = .a → areas.good .b = some y → (imageHeader image.bytes).globalSequence ≠ 0 →
      (imageHeader image.bytes).globalSequence.toNat < 2 ^ 32 →
      y.canUseMemoryDumpLoad n = false →
      (MemIndex.unloaded n sequence).HasRoomFor (imageEntries y.bytes) →
      (areas.LoadsArea (.unloaded n sequence) area image ↔
        (∀ key, liveEntry (imageEntries y.bytes) key =
          liveEntry (imageEntries image.bytes) key) ∧
          (imageHeader y.bytes).globalSequence = (imageHeader image.bytes).globalSequence) := by
  refine ⟨loadsArea_of_loadable hchosen, ?_⟩
  rintro y rfl hy hnonzero hfits hupsert hroom
  have hx := good_of_chosen hchosen
  have hle : (imageHeader y.bytes).globalSequence ≤ (imageHeader image.bytes).globalSequence := by
    simp only [chosen, hx, hy] at hchosen
    by_contra hlt
    rw [if_neg hlt] at hchosen
    cases hchosen
  exact loadsArea_a_iff hx hy hle hnonzero hfits hupsert hroom

/-! ### Two areas -/

/-- An index of capacity 16 with one entry of key 1 whose sequence is that of the index. -/
def sampleIndex (sequence : UInt32) : MemIndex 4 :=
  { ((MemIndex.fresh 4).upsert 1 (MemIndex.sampleEntry 1 sequence)).1 with
    globalSequence := sequence }

/-- An area with the image of that index. -/
def sampleBlob (sequence : UInt32) : AreaBlob where
  bytes := ByteMemory.zero.write 0 ((sampleIndex sequence).serialize 4096)
  chunkFails := fun _ => false

/-- Two areas of 4 KB. -/
def sampleAreas (a b : UInt32) : IndexAreas where
  blob
    | .a => some (sampleBlob a)
    | .b => some (sampleBlob b)
  memIndexSize := 4096
  ioUnit := 512
  segmentFails := fun _ => false

theorem sampleBlob_valid : ((sampleBlob 5).image 4096).Valid ∧
    ((sampleBlob 6).image 4096).Valid := by
  decide +kernel

/-- Area B has the newer index and is loaded. -/
theorem load_chosen_area_sample : ∃ image,
    (sampleAreas 5 6).chosen = some (.b, image) ∧
      (sampleAreas 5 6).LoadsArea (.unloaded 3 0) .b image := by
  have ha : (sampleAreas 5 6).good .a = some ((sampleBlob 5).image 4096) :=
    good_eq_some_iff.mpr ⟨_, rfl, fun _ _ => rfl, sampleBlob_valid.1, rfl⟩
  have hb : (sampleAreas 5 6).good .b = some ((sampleBlob 6).image 4096) :=
    good_eq_some_iff.mpr ⟨_, rfl, fun _ _ => rfl, sampleBlob_valid.2, rfl⟩
  have hnewer : ¬ (imageHeader ((sampleBlob 6).image 4096).bytes).globalSequence ≤
      (imageHeader ((sampleBlob 5).image 4096).bytes).globalSequence := by decide +kernel
  have hchosen : (sampleAreas 5 6).chosen = some (.b, (sampleBlob 6).image 4096) := by
    rw [chosen, ha, hb]
    exact if_neg hnewer
  refine ⟨_, hchosen, (load_chosen_area hchosen).1 ⟨Or.inl rfl, fun hnone => ?_, ?_, ?_, ?_, ⟨?_⟩⟩⟩
  · rw [ha] at hnone
    cases hnone
  · decide +kernel
  · decide +kernel
  · decide +kernel
  · have hentries : imageEntries ((sampleBlob 6).image 4096).bytes =
        [MemIndex.sampleEntry 1 6] := by decide +kernel
    rw [hentries]
    exact ⟨by decide +kernel, fun _ _ => trivial⟩

/-- **Area A has the newer index and is selected, but the entry of B is loaded.** -/
theorem load_older_area : ∃ image,
    (sampleAreas 6 5).chosen = some (.a, image) ∧ (sampleAreas 6 5).selected = .a ∧
      ¬ (sampleAreas 6 5).LoadsArea (.unloaded 3 0) .a image := by
  have ha : (sampleAreas 6 5).good .a = some ((sampleBlob 6).image 4096) :=
    good_eq_some_iff.mpr ⟨_, rfl, fun _ _ => rfl, sampleBlob_valid.2, rfl⟩
  have hb : (sampleAreas 6 5).good .b = some ((sampleBlob 5).image 4096) :=
    good_eq_some_iff.mpr ⟨_, rfl, fun _ _ => rfl, sampleBlob_valid.1, rfl⟩
  have hnewer : (imageHeader ((sampleBlob 5).image 4096).bytes).globalSequence ≤
      (imageHeader ((sampleBlob 6).image 4096).bytes).globalSequence := by decide +kernel
  have hchosen : (sampleAreas 6 5).chosen = some (.a, (sampleBlob 6).image 4096) := by
    rw [chosen, ha, hb]
    exact if_pos hnewer
  refine ⟨_, hchosen, by decide +kernel, fun h => ?_⟩
  have hloaded : ((sampleAreas 6 5).load (.unloaded 3 0)).globalSequence = 5 := by
    decide +kernel
  have hsequence : (imageHeader ((sampleBlob 6).image 4096).bytes).globalSequence = 6 := by
    decide +kernel
  have := h.sequence
  rw [hloaded, hsequence] at this
  exact absurd this (by decide)

end IndexAreas

end SpdkKv
