import SpdkKv.IndexLoad

/-!
# The Two Ways of Loading an Index Image

`serialize` stores the occupied slots one after the other behind a 64-byte header. The upsert
path inserts these entries again. The memory-dump path copies segments of the area into the
table as if the area held the table slot by slot; it rounds the offset of every segment down
to an IO unit, so that the header is copied too, and its length as well, so that the segments
of a small table are not read at all.

## Main results

* `dumpSegments_small`: **nothing is read for a table whose segments are shorter than an IO
  unit**.
* `dump_load_agrees`: the two ways agree on the image of such a table without live entries;
  for every larger table the first slot receives the header.
* `dump_load_loses_entry`: an entry that only the upsert path loads.
-/

namespace SpdkKv

variable {n : ℕ}

/-! ### A table as memory -/

/-- A table is read back from its own memory. -/
theorem MemIndex.withEntryMemory_entryMemory (m : MemIndex n) :
    m.withEntryMemory m.entryMemory = m := by
  suffices h : (fun i : Fin (2 ^ n) =>
      readIndexEntry m.entryMemory (i.val * sizeofMemIndexEntry)) = m.entries by
    rw [MemIndex.withEntryMemory, h]
  funext i
  have hread : m.entryMemory.read (i.val * sizeofMemIndexEntry) sizeofMemIndexEntry =
      (m.entries i).bytes := by
    refine ByteMemory.ext_getD ?_ fun k hk => ?_
    · rw [ByteMemory.length_read, MemIndexEntry.length_bytes]
    · rw [ByteMemory.length_read] at hk
      have hdiv : (i.val * sizeofMemIndexEntry + k) / sizeofMemIndexEntry = i.val := by
        rw [Nat.mul_comm, Nat.mul_add_div (by decide), Nat.div_eq_of_lt hk, Nat.add_zero]
      have hmod : (i.val * sizeofMemIndexEntry + k) % sizeofMemIndexEntry = k := by
        rw [Nat.mul_comm, Nat.mul_add_mod, Nat.mod_eq_of_lt hk]
      rw [ByteMemory.getD_read, if_pos hk, MemIndex.entryMemory, dif_pos (by rw [hdiv]; exact i.isLt)]
      simp only [hdiv, hmod]
  rw [readIndexEntry, hread, MemIndexEntry.ofBytes_bytes]

/-- Nothing is read for a table whose segments are shorter than an IO unit. -/
theorem dumpSegments_small (blob : ByteMemory) {capacity ioUnit : ℕ}
    (h : capacity * sizeofMemIndexEntry / kMemIndexSegmentCount < ioUnit)
    (segmentFails : ℕ → Bool) (memory : ByteMemory) :
    dumpSegments blob capacity ioUnit segmentFails memory = memory := by
  rw [dumpSegments]
  simp only [Nat.div_eq_of_lt h, Nat.zero_mul, ByteMemory.copy_zero, ite_self]
  exact List.foldl_fixed _

/-! ### The two ways -/

/-- An area that holds the image of a table; what is behind it is arbitrary. -/
def imageArea (m : MemIndex n) (bufSize : ℕ) (rest : ByteMemory) : ByteMemory :=
  rest.write 0 (m.serialize bufSize)

/-- The buffer into which `size` bytes of the area have been read. -/
def areaBuffer (area : ByteMemory) (size : ℕ) : MemIndexBuffer := ⟨size, area⟩

/-- The index after the upsert path. -/
def upsertLoaded (area : ByteMemory) (size n : ℕ) : MemIndex n :=
  (areaBuffer area size).loadByUpsert (.unloaded n 0)

/-- The index after the memory-dump path, all of whose reads succeed. -/
def dumpLoaded (area : ByteMemory) (size ioUnit n : ℕ) : MemIndex n :=
  loadAsMemoryDump area ioUnit (fun _ => false) (areaBuffer area size) (.unloaded n 0)

/-- Two indexes find the same entries and have the same sequence. -/
def MemIndex.Agrees (m m' : MemIndex n) : Prop :=
  (∀ key, m.findEntry key = m'.findEntry key) ∧ m.globalSequence = m'.globalSequence

/-- The segments of the table are shorter than an IO unit. -/
def SmallTable (n ioUnit : ℕ) : Prop :=
  2 ^ n * sizeofMemIndexEntry / kMemIndexSegmentCount < ioUnit

/-- All entries of the table are deleted. -/
def MemIndex.NoLive (m : MemIndex n) : Prop := ∀ i, m.Occupied i → (m.entries i).deleted = true

instance (m : MemIndex n) : Decidable m.NoLive := inferInstanceAs (Decidable (∀ _, _ → _))

instance (n ioUnit : ℕ) : Decidable (SmallTable n ioUnit) :=
  inferInstanceAs (Decidable (_ < _))

theorem MemIndex.NoLive.serialized {m : MemIndex n} (h : m.NoLive) {bufSize : ℕ}
    {e : MemIndexEntry} (he : e ∈ m.serialized bufSize) : e.deleted = true := by
  obtain ⟨i, hi, rfl⟩ := List.mem_map.mp he
  exact h i (of_decide_eq_true (List.mem_filter.mp (List.mem_of_mem_take hi)).2)

theorem imageHeader_imageArea (m : MemIndex n) (bufSize : ℕ) (rest : ByteMemory) :
    imageHeader (imageArea m bufSize rest) = m.serializedHeader bufSize :=
  imageHeader_write _ _ _

/-- A table without entries keeps its lengths when they are computed again. -/
theorem MemIndex.rebuildPslArray_unloaded (sequence : UInt32) :
    (MemIndex.unloaded n sequence).rebuildPslArray = .unloaded n sequence := by
  have hempty : ∀ i, ((MemIndex.unloaded n sequence).entries i).isEmpty = true := fun _ => rfl
  simp only [MemIndex.rebuildPslArray, hempty, if_true, Bool.not_true, Bool.false_and,
    List.filter_false, List.length_nil]
  rfl

/-- The memory-dump path leaves a small table empty. -/
theorem dumpLoaded_small {area : ByteMemory} {size ioUnit : ℕ} (h : SmallTable n ioUnit)
    (hcapacity : (imageHeader area).capacity.toNat ≤ 2 ^ n) :
    dumpLoaded area size ioUnit n =
      .unloaded n (UInt32.ofNat (imageHeader area).globalSequence.toNat) := by
  have hsegments := dumpSegments_small area (lt_of_le_of_lt (Nat.div_le_div_right
    (Nat.mul_le_mul_right sizeofMemIndexEntry hcapacity)) h) (fun _ => false)
    (MemIndex.unloaded n 0).entryMemory
  rw [dumpLoaded, loadAsMemoryDump]
  dsimp only [areaBuffer]
  rw [hsegments, MemIndex.withEntryMemory_entryMemory, MemIndex.rebuildPslArray_unloaded,
    if_neg (by simp)]
  rfl

/-- The upsert path leaves the table empty when no entry is live. -/
theorem upsertLoaded_noLive {m : MemIndex n} (h : m.NoLive) {bufSize size : ℕ}
    {rest : ByteMemory} (hsize : sizeofSerializedHeader ≤ size) :
    upsertLoaded (imageArea m bufSize rest) size n =
      .unloaded n (UInt32.ofNat (m.serializedHeader bufSize).globalSequence.toNat) := by
  have hmagic : (imageHeader (areaBuffer (imageArea m bufSize rest) size).bytes).magic =
      kMemIndexMagic := by
    rw [areaBuffer, imageHeader_imageArea]
    rfl
  have hops : liveOps (imageEntries (imageArea m bufSize rest)) = [] := by
    rw [liveOps, List.map_eq_nil_iff, List.filter_eq_nil_iff]
    intro e he
    rw [imageArea, imageEntries_serialize] at he
    rw [h.serialized (List.mem_of_mem_take he)]
    decide
  rw [upsertLoaded, MemIndexBuffer.loadByUpsert_of_magic _ hsize hmagic]
  simp only [areaBuffer, hops, imageHeader_imageArea]
  rfl

/-! ### A live entry is loaded by the upsert path -/

/-- A table whose keys are few has a free slot. -/
theorem MemIndex.Wf.exists_free {m : MemIndex n} (hm : m.Wf) {keys : List UInt64}
    (hkeys : ∀ x, m.Holds x → x.key ∈ keys) (hlen : keys.length < 2 ^ n) :
    ∃ i, ¬ m.Occupied i := by
  by_contra hfull
  have hocc : ∀ i, m.Occupied i := fun i => not_not.mp fun h => hfull ⟨i, h⟩
  have hinj : Function.Injective fun i => (m.entries i).key :=
    fun i j h => hm.inj i j (hocc i) (hocc j) h
  have hsub : Finset.univ.image (fun i => (m.entries i).key) ⊆ keys.toFinset := by
    intro key hkey
    obtain ⟨i, -, rfl⟩ := Finset.mem_image.mp hkey
    exact List.mem_toFinset.mpr (hkeys _ ⟨i, hocc i, rfl⟩)
  have hcard := (Finset.card_le_card hsub).trans keys.toFinset_card_le
  rw [Finset.card_image_of_injective _ hinj, Finset.card_univ, Fintype.card_fin] at hcard
  omega

/-- Inserting live entries of distinct keys, no more than the table has slots, leaves a
well-formed table of live entries that is not empty. -/
theorem MemIndex.Wf.foldl_upsert {es : List MemIndexEntry} (hlive : ∀ e ∈ es, e.deleted = false) :
    ∀ {m : MemIndex n} {keys : List UInt64}, m.Wf → (∀ x, m.Holds x → x.deleted = false) →
      (∀ x, m.Holds x → x.key ∈ keys) → (keys ++ es.map MemIndexEntry.key).Nodup →
      keys.length + es.length ≤ 2 ^ n → (es ≠ [] ∨ ∃ x, m.Holds x) →
      let m' := (es.map IndexOp.upsert).foldl MemIndex.applyOp m
      m'.Wf ∧ (∀ x, m'.Holds x → x.deleted = false) ∧ ∃ x, m'.Holds x := by
  induction es with
  | nil => exact fun hm hold _ _ _ hne => ⟨hm, hold, hne.resolve_left (fun h => h rfl)⟩
  | cons e es ih =>
      intro m keys hm hold hkeys hnodup hlen _
      have habs : m.Absent e.key := by
        intro i ho hk
        have hmem := hkeys _ ⟨i, ho, rfl⟩
        rw [hk] at hmem
        exact (List.nodup_append.mp hnodup).2.2 _ hmem _ (by simp) rfl
      obtain ⟨hwf, -, hsome, hsub⟩ := hm.upsert_absent rfl habs fun _ =>
        hm.exists_free hkeys (by rw [List.length_cons] at hlen; omega)
      have hrest := fun x hx => hlive x (List.mem_cons_of_mem _ hx)
      refine @ih hrest (m.upsert e.key e).1 (keys ++ [e.key]) hwf (fun x hx => ?_)
        (fun x hx => ?_) ?_ ?_ (Or.inr hsome)
      · rcases hsub x hx with hx | rfl
        · exact hold x hx
        · rw [tagged_deleted]
          exact hlive e List.mem_cons_self
      · rcases hsub x hx with hx | rfl
        · exact List.mem_append_left _ (hkeys x hx)
        · rw [tagged_key]
          simp
      · rwa [List.append_assoc, List.singleton_append, ← List.map_cons]
      · rw [List.length_append, List.length_singleton]
        rw [List.length_cons] at hlen
        omega

/-- The entries of an image have distinct keys. -/
theorem MemIndex.Wf.nodup_serialized {m : MemIndex n} (hm : m.Wf) (bufSize : ℕ) :
    ((m.serialized bufSize).map MemIndexEntry.key).Nodup := by
  rw [MemIndex.serialized, List.map_map]
  refine List.Nodup.map_on (fun i hi j hj h => ?_)
    (((List.nodup_finRange _).filter _).sublist (List.take_sublist _ _))
  exact hm.inj i j (of_decide_eq_true (List.mem_filter.mp (List.mem_of_mem_take hi)).2)
    (of_decide_eq_true (List.mem_filter.mp (List.mem_of_mem_take hj)).2) h

theorem MemIndex.length_serialized_le (m : MemIndex n) (bufSize : ℕ) :
    (m.serialized bufSize).length ≤ 2 ^ n := by
  rw [MemIndex.serialized, List.length_map]
  refine (List.length_take_le' _ _).trans ((List.length_filter_le _ _).trans ?_)
  rw [List.length_finRange]

/-- Entries of distinct keys, no more than the table has slots and one of them live, leave
something to find. -/
theorem exists_findEntry_liveOps {es : List MemIndexEntry}
    (hnodup : (es.map MemIndexEntry.key).Nodup) (hlen : es.length ≤ 2 ^ n) {e : MemIndexEntry}
    (he : e ∈ es) (hlive : e.deleted = false) (sequence : UInt32) :
    ∃ key, ({ (liveOps es).foldl MemIndex.applyOp (.unloaded n 0) with
      globalSequence := sequence } : MemIndex n).findEntry key ≠ none := by
  have hfresh : ∀ x, ¬ (MemIndex.unloaded n 0).Holds x := fun x ⟨i, ho, _⟩ =>
    absurd ho (Nat.lt_irrefl 0)
  have hne : es.filter (fun e => !e.deleted) ≠ [] :=
    List.ne_nil_of_mem (List.mem_filter.mpr ⟨he, by rw [hlive]; rfl⟩)
  obtain ⟨hwf, hall, x, hx⟩ := @MemIndex.Wf.foldl_upsert n (es.filter fun e => !e.deleted)
    (fun x hx => by simpa using (List.mem_filter.mp hx).2) (.unloaded n 0) []
    ((MemIndex.fresh_wf n).withGlobalSequence) (fun x hx => absurd hx (hfresh x))
    (fun x hx => absurd hx (hfresh x)) (hnodup.sublist (List.filter_sublist.map _))
    (by
      rw [List.length_nil, Nat.zero_add]
      exact (List.length_filter_le _ _).trans hlen) (Or.inl hne)
  refine ⟨x.key, fun hnone => ?_⟩
  have hfind := hwf.withGlobalSequence.findEntry_eq_some_iff.mpr ⟨hx, rfl, hall x hx⟩
  exact nomatch hfind.symm.trans hnone

/-- The upsert path loads an entry if one of the image is live. -/
theorem upsertLoaded_live {m : MemIndex n} (hm : m.Wf) (hn : n < 64) {bufSize size : ℕ}
    {rest : ByteMemory} (hsize : sizeofSerializedHeader ≤ size) {e : MemIndexEntry}
    (he : e ∈ m.serialized bufSize) (hlive : e.deleted = false) :
    ∃ key, (upsertLoaded (imageArea m bufSize rest) size n).findEntry key ≠ none := by
  have hmagic : (imageHeader (areaBuffer (imageArea m bufSize rest) size).bytes).magic =
      kMemIndexMagic := by
    rw [areaBuffer, imageHeader_imageArea]
    rfl
  have hcount : (m.serialized bufSize).length % 2 ^ 64 = (m.serialized bufSize).length :=
    Nat.mod_eq_of_lt ((m.length_serialized_le bufSize).trans_lt
      (Nat.pow_lt_pow_right (by decide) hn))
  have hentries : imageEntries (areaBuffer (imageArea m bufSize rest) size).bytes =
      m.serialized bufSize := by
    rw [areaBuffer, imageArea, imageEntries_serialize, hcount, List.take_length]
  rw [upsertLoaded, MemIndexBuffer.loadByUpsert_of_magic _ hsize hmagic, hentries]
  exact exists_findEntry_liveOps (hm.nodup_serialized bufSize) (m.length_serialized_le bufSize)
    he hlive _

/-! ### The header in the table -/

/-- The reads of the segments behind the first one leave its memory alone. -/
theorem foldl_copy_behind (blob : ByteMemory) (segmentSize len : ℕ) (start : ℕ → ℕ) {i : ℕ}
    (hi : i < segmentSize) (segs : List ℕ) (memory : ByteMemory) :
    segs.foldl (fun memory seg => memory.copy blob ((seg + 1) * segmentSize) (start seg) len)
      memory i = memory i := by
  induction segs generalizing memory with
  | nil => rfl
  | cons seg segs ih =>
      rw [List.foldl_cons, ih, ByteMemory.copy, if_neg]
      rintro ⟨hle, -⟩
      exact absurd ((Nat.le_mul_of_pos_left segmentSize seg.succ_pos).trans hle) (not_le.mpr hi)

/-- The first segment is read from the front of the area when an IO unit is longer than the
header. -/
theorem dumpSegments_front (blob memory : ByteMemory) {capacity ioUnit i : ℕ}
    (hunit : sizeofSerializedHeader < ioUnit)
    (hle : ioUnit ≤ capacity * sizeofMemIndexEntry / kMemIndexSegmentCount) (hi : i < ioUnit) :
    dumpSegments blob capacity ioUnit (fun _ => false) memory i = blob i := by
  rw [dumpSegments, kMemIndexSegmentCount, List.range_succ_eq_map, List.foldl_cons,
    List.foldl_map]
  rw [kMemIndexSegmentCount] at hle
  simp only [Bool.false_eq_true, if_false, Nat.zero_mul, Nat.add_zero, Nat.div_eq_of_lt hunit]
  refine (foldl_copy_behind blob _ _ (fun seg => _) (hi.trans_le hle) _ _).trans ?_
  have hpos : 0 < capacity * sizeofMemIndexEntry / 80 / ioUnit :=
    Nat.div_pos hle (by omega)
  have hin : 0 ≤ i ∧ i < 0 + capacity * sizeofMemIndexEntry / 80 / ioUnit * ioUnit := by
    rw [Nat.zero_add]
    exact ⟨Nat.zero_le i, hi.trans_le (Nat.le_mul_of_pos_left ioUnit hpos)⟩
  rw [ByteMemory.copy, if_pos hin, Nat.zero_add, Nat.sub_zero]

/-- **The memory-dump path puts the front of the header into the first slot** of a table whose
segments are at least as long as an IO unit. -/
theorem dumpLoaded_first {area : ByteMemory} {size ioUnit : ℕ}
    (hunit : sizeofSerializedHeader < ioUnit)
    (hle : ioUnit ≤
      (imageHeader area).capacity.toNat * sizeofMemIndexEntry / kMemIndexSegmentCount) :
    (dumpLoaded area size ioUnit n).entries ⟨0, Nat.two_pow_pos n⟩ = readIndexEntry area 0 := by
  have hread : (dumpSegments area (imageHeader area).capacity.toNat ioUnit (fun _ => false)
      (MemIndex.unloaded n 0).entryMemory).read 0 sizeofMemIndexEntry =
        area.read 0 sizeofMemIndexEntry := by
    refine List.map_congr_left fun i hi => ?_
    have := List.mem_range.mp hi
    exact dumpSegments_front area _ hunit hle (by
      rw [Nat.zero_add]
      exact this.trans (lt_trans (by decide) hunit))
  rw [dumpLoaded, loadAsMemoryDump]
  dsimp only [areaBuffer]
  rw [if_neg (by simp)]
  exact congrArg MemIndexEntry.ofBytes hread

/-- **When the two ways agree**: on the image of a small table without live entries. For a
small table with a live entry in its image they differ, and in a larger one the memory-dump
path makes an entry of the header. -/
theorem dump_load_agrees (m : MemIndex n) {bufSize size ioUnit : ℕ} (rest : ByteMemory)
    (hsize : sizeofSerializedHeader ≤ size) :
    (SmallTable n ioUnit → m.NoLive →
      (upsertLoaded (imageArea m bufSize rest) size n).Agrees
        (dumpLoaded (imageArea m bufSize rest) size ioUnit n)) ∧
    (SmallTable n ioUnit → m.Wf → n < 64 → (∃ e ∈ m.serialized bufSize, e.deleted = false) →
      ¬ (upsertLoaded (imageArea m bufSize rest) size n).Agrees
        (dumpLoaded (imageArea m bufSize rest) size ioUnit n)) ∧
    (¬ SmallTable n ioUnit → n < 64 → sizeofSerializedHeader < ioUnit →
      (dumpLoaded (imageArea m bufSize rest) size ioUnit n).entries ⟨0, Nat.two_pow_pos n⟩ =
        readIndexEntry (imageArea m bufSize rest) 0) := by
  have hheader := imageHeader_imageArea m bufSize rest
  have hcapacity : (imageHeader (imageArea m bufSize rest)).capacity.toNat = 2 ^ n % 2 ^ 64 := by
    rw [hheader, MemIndex.serializedHeader, UInt64.toNat_ofNat']
  have hle : (imageHeader (imageArea m bufSize rest)).capacity.toNat ≤ 2 ^ n := by
    rw [hcapacity]
    exact Nat.mod_le _ _
  refine ⟨fun hsmall hno => ?_, fun hsmall hm hn hlive hagree => ?_, fun hlarge hn hunit => ?_⟩
  · rw [upsertLoaded_noLive hno hsize, dumpLoaded_small hsmall hle, hheader]
    exact ⟨fun _ => rfl, rfl⟩
  · obtain ⟨e, he, hlive⟩ := hlive
    obtain ⟨key, hkey⟩ := @upsertLoaded_live n m hm hn bufSize size rest hsize e he hlive
    refine hkey ((hagree.1 key).trans ?_)
    rw [dumpLoaded_small hsmall hle]
    have hwf : (MemIndex.unloaded n (UInt32.ofNat (imageHeader (imageArea m bufSize
      rest)).globalSequence.toNat)).Wf := (MemIndex.fresh_wf n).withGlobalSequence
    rw [hwf.findEntry_eq, MemIndex.stored_unloaded]
    rfl
  · refine dumpLoaded_first hunit ?_
    rw [hcapacity, Nat.mod_eq_of_lt (Nat.pow_lt_pow_right (by decide) hn)]
    exact not_lt.mp hlarge

/-! ### Two images -/

/-- The image of a table with one deleted entry: both ways load nothing. -/
theorem dump_load_agrees_sample :
    (upsertLoaded (imageArea ((IndexAreas.sampleIndex 5).remove 1).1 4096 .zero) 4096 4).Agrees
      (dumpLoaded (imageArea ((IndexAreas.sampleIndex 5).remove 1).1 4096 .zero) 4096 512 4) :=
  (dump_load_agrees _ .zero (by decide)).1 (by decide) (by decide +kernel)

/-- **Only the upsert path loads the entry** of a table with one live entry; with IO units of
512 bytes the memory-dump path reads nothing. -/
theorem dump_load_loses_entry :
    ((upsertLoaded (imageArea (IndexAreas.sampleIndex 5) 4096 .zero) 4096 4).findEntry 1,
      (dumpLoaded (imageArea (IndexAreas.sampleIndex 5) 4096 .zero) 4096 512 4).findEntry 1) =
      (some (MemIndex.sampleEntry 1 5), none) := by
  decide +kernel

end SpdkKv
