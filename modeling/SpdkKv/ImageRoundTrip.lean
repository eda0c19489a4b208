import SpdkKv.DumpLoad

/-!
# The Round Trip of an Index Image

`serialize` of `mem_index.h` copies the occupied slots to a buffer until that is full, and
returns how much it has written; it returns 0 only when there is no room for the header.
`deserialize` inserts the entries that are not deleted into another index and does not look
at what `upsert` returns.

## Main results

* `deserialize_serialize`: what is made of an image.
* `Wf.accepted_of_card`: an insertion that fails leaves too few occupied slots.
* `roundTrips_iff`: **an index survives the round trip exactly when** the buffer has no room
  for the header, or room for all live entries and their insertion in slot order succeeds.
* `serialize_omits_live`: an image that omits a live entry.
-/

namespace SpdkKv

namespace MemIndex

variable {n : ℕ}

/-! ### The functions -/

/-- `serialize`; `none` stands for the result 0, the image for its length. -/
def serializeTo (m : MemIndex n) (bufSize : ℕ) : Option (List UInt8) :=
  if bufSize < sizeofSerializedHeader then none else some (m.serialize bufSize)

/-- `deserialize`: the table afterwards and the number of entries. -/
def deserialize (m : MemIndex n) (buffer : ByteMemory) (dataSize : ℕ) : MemIndex n × ℕ :=
  let header := imageHeader buffer
  let entryDataSize := dataSize - sizeofSerializedHeader
  if dataSize < sizeofSerializedHeader then (m, 0)
  else if header.magic ≠ kMemIndexMagic then (m, 0)
  else if Crc32.calculate (buffer.read sizeofSerializedHeader entryDataSize) ≠
      header.checksum then (m, 0)
  else if header.entryCount.toNat * sizeofMemIndexEntry % 2 ^ 64 > entryDataSize then (m, 0)
  else
    let filled := (imageEntries buffer).foldl
      (fun m src => if src.deleted then m else (m.upsert src.key src).1) m
    ({ filled with globalSequence := UInt32.ofNat header.globalSequence.toNat },
      header.entryCount.toNat)

/-- What `serialize` promises for a buffer of the size: it returns 0, or an image that holds
every live entry and from which a fresh index of the same capacity is filled with the same
entries and the same sequence. -/
def RoundTrips (m : MemIndex n) (bufSize : ℕ) : Prop :=
  ∀ image, m.serializeTo bufSize = some image → ∀ rest : ByteMemory,
    (∀ e, m.Holds e → e.deleted = false → e ∈ imageEntries (rest.write 0 image)) ∧
    (∀ key, ((fresh n).deserialize (rest.write 0 image) image.length).1.findEntry key =
      m.findEntry key) ∧
    ((fresh n).deserialize (rest.write 0 image) image.length).1.globalSequence =
      m.globalSequence

/-! ### What is made of an image -/

theorem length_flatMap_bytes (es : List MemIndexEntry) :
    (es.flatMap MemIndexEntry.bytes).length = es.length * sizeofMemIndexEntry := by
  induction es with
  | nil => rw [List.flatMap_nil, List.length_nil, List.length_nil, Nat.zero_mul]
  | cons e es ih =>
      rw [List.flatMap_cons, List.length_append, MemIndexEntry.length_bytes, ih,
        List.length_cons, Nat.succ_mul, Nat.add_comm]

theorem length_serialize (m : MemIndex n) (bufSize : ℕ) : (m.serialize bufSize).length =
    sizeofSerializedHeader + (m.serialized bufSize).length * sizeofMemIndexEntry := by
  rw [serialize, List.length_append, SerializedMemIndexHeader.length_bytes,
    length_flatMap_bytes]

/-- The image yields the entries it was made from. -/
theorem imageEntries_image (m : MemIndex n) (hn : n < 64) (bufSize : ℕ) (rest : ByteMemory) :
    imageEntries (rest.write 0 (m.serialize bufSize)) = m.serialized bufSize := by
  have hlt : (m.serialized bufSize).length < 2 ^ 64 :=
    (m.length_serialized_le bufSize).trans_lt (Nat.pow_lt_pow_right (by decide) hn)
  rw [imageEntries_serialize, Nat.mod_eq_of_lt hlt, List.take_length]

/-- **What is made of an image**: the live entries that were copied are inserted in turn, and
the sequence is set. -/
theorem deserialize_serialize (m t : MemIndex n) (hn : n < 64) (bufSize : ℕ)
    (rest : ByteMemory) :
    (t.deserialize (rest.write 0 (m.serialize bufSize)) (m.serialize bufSize).length).1 =
      { (liveOps (m.serialized bufSize)).foldl applyOp t with
        globalSequence := m.globalSequence } := by
  have hheader : imageHeader (rest.write 0 (m.serialize bufSize)) = m.serializedHeader bufSize :=
    imageHeader_write _ _ _
  have hlen := m.length_serialize bufSize
  have hdata : (rest.write 0 (m.serialize bufSize)).read sizeofSerializedHeader
      ((m.serialized bufSize).length * sizeofMemIndexEntry) =
        (m.serialized bufSize).flatMap MemIndexEntry.bytes := by
    have hread := @ByteMemory.read_write_within rest 0 sizeofSerializedHeader
      ((m.serialized bufSize).length * sizeofMemIndexEntry) (m.serialize bufSize) hlen.ge
    rw [Nat.zero_add] at hread
    rw [hread, serialize, List.drop_left' (SerializedMemIndexHeader.length_bytes _),
      ← length_flatMap_bytes, List.take_length]
  have hcount := Nat.mod_le ((m.serializedHeader bufSize).entryCount.toNat *
    sizeofMemIndexEntry) (2 ^ 64)
  have hle : (m.serializedHeader bufSize).entryCount.toNat ≤ (m.serialized bufSize).length := by
    rw [serializedHeader, UInt64.toNat_ofNat']
    exact Nat.mod_le _ _
  have hfit : ¬ (m.serializedHeader bufSize).entryCount.toNat * sizeofMemIndexEntry % 2 ^ 64 >
      (m.serialized bufSize).length * sizeofMemIndexEntry :=
    not_lt.mpr (hcount.trans (Nat.mul_le_mul_right _ hle))
  have hsequence : UInt32.ofNat (m.serializedHeader bufSize).globalSequence.toNat =
      m.globalSequence := by
    have hlt : m.globalSequence.toNat < 2 ^ 64 :=
      m.globalSequence.toNat_lt.trans (by decide)
    rw [serializedHeader, UInt64.toNat_ofNat', Nat.mod_eq_of_lt hlt, UInt32.ofNat_toNat]
  have hmagic : ¬ (m.serializedHeader bufSize).magic ≠ kMemIndexMagic := not_not.mpr rfl
  have hcrc : ¬ Crc32.calculate ((m.serialized bufSize).flatMap MemIndexEntry.bytes) ≠
      (m.serializedHeader bufSize).checksum := not_not.mpr rfl
  rw [deserialize]
  simp only [hheader, hlen, Nat.add_sub_cancel_left, hdata]
  rw [if_neg (by omega), if_neg hmagic, if_neg hcrc, if_neg hfit, imageEntries_image m hn,
    foldl_liveOps, hsequence]

/-! ### Insertions that fail -/

/-- The slots that are taken. -/
def occupiedSlots (m : MemIndex n) : Finset (Fin (2 ^ n)) := Finset.univ.filter m.Occupied

theorem mem_occupiedSlots {m : MemIndex n} {i : Fin (2 ^ n)} :
    i ∈ m.occupiedSlots ↔ m.Occupied i := by
  rw [occupiedSlots, Finset.mem_filter, and_iff_right (Finset.mem_univ i)]

/-- How many slots a call for an absent key takes. -/
theorem Wf.card_upsert_absent {m : MemIndex n} (hm : m.Wf) {e : MemIndexEntry}
    (habs : m.Absent e.key) (hfree : ∃ i, ¬ m.Occupied i) :
    (m.upsert e.key e).1.occupiedSlots.card =
      m.occupiedSlots.card + (m.upsert e.key e).2.toNat := by
  obtain ⟨htrue, hfalse⟩ := hm.occupied_upsert_absent (e := e) rfl habs fun _ => hfree
  cases hok : (m.upsert e.key e).2 with
  | true =>
      obtain ⟨f, hf, hocc⟩ := htrue hok
      have hset : (m.upsert e.key e).1.occupiedSlots = insert f m.occupiedSlots := by
        ext i
        rw [Finset.mem_insert, mem_occupiedSlots, mem_occupiedSlots, hocc]
      rw [hset, Finset.card_insert_of_notMem (fun h => hf (mem_occupiedSlots.mp h))]
      rfl
  | false =>
      have hset : (m.upsert e.key e).1.occupiedSlots = m.occupiedSlots := by
        ext i
        rw [mem_occupiedSlots, mem_occupiedSlots, hfalse hok]
      rw [hset]
      rfl

/-- **Insertions of distinct keys take one slot each exactly when they all succeed.** -/
theorem Wf.accepted_of_card {es : List MemIndexEntry} :
    ∀ {m : MemIndex n} {keys : List UInt64}, m.Wf → (∀ x, m.Holds x → x.key ∈ keys) →
      (keys ++ es.map MemIndexEntry.key).Nodup → keys.length + es.length ≤ 2 ^ n →
      let m' := (es.map IndexOp.upsert).foldl MemIndex.applyOp m
      m'.Wf ∧ m'.occupiedSlots.card ≤ m.occupiedSlots.card + es.length ∧
        (m.occupiedSlots.card + es.length ≤ m'.occupiedSlots.card →
          (indexMachine n).Meets AcceptedOp m (es.map IndexOp.upsert)) := by
  induction es with
  | nil => exact fun hm _ _ _ => ⟨hm, le_rfl, fun _ => trivial⟩
  | cons e es ih =>
      intro m keys hm hkeys hnodup hlen
      rw [List.length_cons] at hlen
      have habs : m.Absent e.key := by
        intro i ho hk
        have hmem := hkeys _ ⟨i, ho, rfl⟩
        rw [hk] at hmem
        exact (List.nodup_append.mp hnodup).2.2 _ hmem _ (by simp) rfl
      have hfree : ∃ i, ¬ m.Occupied i := hm.exists_free hkeys (by omega)
      obtain ⟨hwf, -, -, hsub⟩ := hm.upsert_absent (e := e) rfl habs fun _ => hfree
      have hcard := hm.card_upsert_absent habs hfree
      obtain ⟨hwf', hle, hall⟩ := @ih (m.upsert e.key e).1 (keys ++ [e.key]) hwf
        (fun x hx => by
          rcases hsub x hx with hx | rfl
          · exact List.mem_append_left _ (hkeys x hx)
          · rw [tagged_key]
            simp)
        (by rwa [List.append_assoc, List.singleton_append, ← List.map_cons])
        (by rw [List.length_append, List.length_singleton]; omega)
      have hone := Bool.toNat_le (m.upsert e.key e).2
      refine ⟨hwf', hle.trans (by rw [List.length_cons]; omega), fun h => ?_⟩
      have hle' : ((es.map IndexOp.upsert).foldl MemIndex.applyOp
          (m.upsert e.key e).1).occupiedSlots.card
          ≤ (m.upsert e.key e).1.occupiedSlots.card + es.length := hle
      have h' : m.occupiedSlots.card + (es.length + 1) ≤
          ((es.map IndexOp.upsert).foldl MemIndex.applyOp
          (m.upsert e.key e).1).occupiedSlots.card := h
      have hok : (m.upsert e.key e).2 = true := by
        cases hb : (m.upsert e.key e).2 with
        | true => rfl
        | false =>
            rw [hb, Bool.toNat_false] at hcard
            omega
      rw [hok, Bool.toNat_true] at hcard
      refine ⟨⟨fun _ => ⟨habs, hfree⟩, hok⟩, fun m' hm' => ?_⟩
      obtain rfl := Option.some.inj hm'
      exact hall (by omega)

/-- A well-formed table with as many keys as slots taken. -/
theorem Wf.length_le_card {m : MemIndex n} (hm : m.Wf) {es : List MemIndexEntry}
    (hnodup : (es.map MemIndexEntry.key).Nodup) (hfind : ∀ e ∈ es, m.findEntry e.key ≠ none) :
    es.length ≤ m.occupiedSlots.card := by
  have hsub : (es.map MemIndexEntry.key).toFinset ⊆
      m.occupiedSlots.image fun i => (m.entries i).key := by
    intro key hkey
    obtain ⟨e, he, rfl⟩ := List.mem_map.mp (List.mem_toFinset.mp hkey)
    obtain ⟨x, hx⟩ := Option.ne_none_iff_exists'.mp (hfind e he)
    obtain ⟨⟨i, ho, rfl⟩, hk, -⟩ := hm.findEntry_eq_some_iff.mp hx
    exact Finset.mem_image.mpr ⟨i, mem_occupiedSlots.mpr ho, hk⟩
  have hcard := (Finset.card_le_card hsub).trans Finset.card_image_le
  rwa [List.toFinset_card_of_nodup hnodup, List.length_map] at hcard

/-! ### The round trip -/

/-- The entries of the occupied slots, in slot order. -/
def slotEntries (m : MemIndex n) : List MemIndexEntry :=
  ((List.finRange (2 ^ n)).filter fun i => decide (m.Occupied i)).map m.entries

/-- The number of entries that fit a buffer. -/
def maxEntries (bufSize : ℕ) : ℕ := (bufSize - sizeofSerializedHeader) / sizeofMemIndexEntry

/-- The occupied slots for which the buffer has no room hold deleted entries. -/
def CoversLive (m : MemIndex n) (bufSize : ℕ) : Prop :=
  ∀ e ∈ m.slotEntries.drop (maxEntries bufSize), e.deleted = true

instance (m : MemIndex n) (bufSize : ℕ) : Decidable (m.CoversLive bufSize) :=
  inferInstanceAs (Decidable (∀ _, _))

/-- The live entries, inserted in slot order, find room in an empty index. -/
def Reinserts (m : MemIndex n) : Prop := (fresh n).HasRoomFor m.slotEntries

theorem serialized_eq_take (m : MemIndex n) (bufSize : ℕ) :
    m.serialized bufSize = m.slotEntries.take (maxEntries bufSize) := by
  rw [serialized, slotEntries, List.map_take]
  rfl

theorem mem_slotEntries {m : MemIndex n} {e : MemIndexEntry} :
    e ∈ m.slotEntries ↔ m.Holds e := by
  rw [slotEntries, List.mem_map]
  refine exists_congr fun i => and_congr_left fun _ => ?_
  rw [List.mem_filter, and_iff_right (List.mem_finRange i), decide_eq_true_eq]

theorem Wf.nodup_slotEntries {m : MemIndex n} (hm : m.Wf) :
    (m.slotEntries.map MemIndexEntry.key).Nodup := by
  rw [slotEntries, List.map_map]
  refine List.Nodup.map_on (fun i hi j hj h => ?_) ((List.nodup_finRange _).filter _)
  exact hm.inj i j (of_decide_eq_true (List.mem_filter.mp hi).2)
    (of_decide_eq_true (List.mem_filter.mp hj).2) h

theorem length_slotEntries_le (m : MemIndex n) : m.slotEntries.length ≤ 2 ^ n := by
  rw [slotEntries, List.length_map]
  refine (List.length_filter_le _ _).trans ?_
  rw [List.length_finRange]

/-- A buffer that covers the live entries receives them all. -/
theorem CoversLive.liveOps_eq {m : MemIndex n} {bufSize : ℕ} (h : m.CoversLive bufSize) :
    liveOps (m.serialized bufSize) = liveOps m.slotEntries := by
  have hsplit := List.take_append_drop (maxEntries bufSize) m.slotEntries
  have hdrop : (m.slotEntries.drop (maxEntries bufSize)).filter (fun e => !e.deleted) = [] := by
    rw [List.filter_eq_nil_iff]
    intro e he
    rw [h e he]
    exact Bool.false_ne_true
  rw [serialized_eq_take, liveOps, liveOps]
  conv_rhs => rw [← hsplit, List.filter_append, hdrop, List.append_nil]

/-- The live entry of a key in the table is what a lookup finds. -/
theorem Wf.liveEntry_slotEntries {m : MemIndex n} (hm : m.Wf) (key : UInt64) :
    liveEntry m.slotEntries key = m.findEntry key := by
  have hnodup : ((m.slotEntries.filter fun e => !e.deleted).map MemIndexEntry.key).Nodup :=
    hm.nodup_slotEntries.sublist (List.filter_sublist.map _)
  cases hfind : m.findEntry key with
  | some e =>
      obtain ⟨hholds, rfl, hd⟩ := hm.findEntry_eq_some_iff.mp hfind
      rw [liveEntry_eq_some hnodup (mem_slotEntries.mpr hholds) hd]
      obtain ⟨i, ho, rfl⟩ := hholds
      rw [tagged, ← hm.tag_eq i ho]
  | none =>
      refine liveEntry_eq_none fun e he hd hk => ?_
      have := hm.findEntry_eq_some_iff.mpr ⟨mem_slotEntries.mp he, hk, hd⟩
      rw [hfind] at this
      cases this

/-- **When a well-formed index survives the round trip.** -/
theorem Wf.survives_iff {m : MemIndex n} (hm : m.Wf) (hn : n < 64) (bufSize : ℕ) :
    m.RoundTrips bufSize ↔
      bufSize < sizeofSerializedHeader ∨ m.CoversLive bufSize ∧ m.Reinserts := by
  by_cases hsize : bufSize < sizeofSerializedHeader
  · refine iff_of_true (fun image h => ?_) (Or.inl hsize)
    rw [serializeTo, if_pos hsize] at h
    cases h
  have hto : m.serializeTo bufSize = some (m.serialize bufSize) := if_neg hsize
  rw [or_iff_right hsize]
  constructor
  · intro h
    obtain ⟨hlive, hfind, -⟩ := h _ hto ByteMemory.zero
    rw [imageEntries_image m hn] at hlive
    have hcovers : m.CoversLive bufSize := by
      intro e he
      by_contra hd
      have hmem := hlive e (mem_slotEntries.mp (List.mem_of_mem_drop he))
        (Bool.eq_false_of_not_eq_true hd)
      -- every entry occurs once
      have hnodup := hm.nodup_slotEntries
      rw [serialized_eq_take] at hmem
      rw [← List.take_append_drop (maxEntries bufSize) m.slotEntries, List.map_append] at hnodup
      exact (List.nodup_append.mp hnodup).2.2 _ (List.mem_map_of_mem hmem) _
        (List.mem_map_of_mem he) rfl
    refine ⟨hcovers, ⟨?_⟩⟩
    rw [deserialize_serialize m _ hn, hcovers.liveOps_eq] at hfind
    have hnodup : ((m.slotEntries.filter fun e => !e.deleted).map MemIndexEntry.key).Nodup :=
      hm.nodup_slotEntries.sublist (List.filter_sublist.map _)
    have hle : (m.slotEntries.filter fun e => !e.deleted).length ≤ 2 ^ n :=
      (List.length_filter_le _ _).trans m.length_slotEntries_le
    obtain ⟨hwf, -, haccepted⟩ := @Wf.accepted_of_card n
      (m.slotEntries.filter fun e => !e.deleted) (fresh n) [] (fresh_wf n)
      (fun x hx => by
        obtain ⟨i, ho, -⟩ := hx
        exact absurd ho (Nat.lt_irrefl 0))
      (by rwa [List.nil_append]) (by rwa [List.length_nil, Nat.zero_add])
    refine haccepted ?_
    have hzero : (fresh n).occupiedSlots.card = 0 := by
      rw [Finset.card_eq_zero, Finset.eq_empty_iff_forall_notMem]
      intro i hi
      exact absurd (mem_occupiedSlots.mp hi) (Nat.lt_irrefl 0)
    rw [hzero, Nat.zero_add]
    refine hwf.length_le_card hnodup fun e he => ?_
    obtain ⟨he, hd⟩ := List.mem_filter.mp he
    have hsome := hm.findEntry_eq_some_iff.mpr
      ⟨mem_slotEntries.mp he, rfl, by simpa using hd⟩
    have hsame := hfind e.key
    rw [hsome] at hsame
    rw [findEntry_withGlobalSequence, liveOps] at hsame
    rw [hsame]
    exact Option.some_ne_none e
  · rintro ⟨hcovers, hroom⟩ image himage rest
    obtain rfl := Option.some.inj (hto.symm.trans himage)
    refine ⟨fun e he hd => ?_, fun key => ?_, ?_⟩
    · rw [imageEntries_image m hn, serialized_eq_take]
      have hmem := mem_slotEntries.mpr he
      rw [← List.take_append_drop (maxEntries bufSize) m.slotEntries] at hmem
      rcases List.mem_append.mp hmem with hmem | hmem
      · exact hmem
      · have := hcovers e hmem
        rw [hd] at this
        cases this
    · rw [deserialize_serialize m _ hn, hcovers.liveOps_eq, ← hm.liveEntry_slotEntries]
      exact @findEntry_foldl_liveOps n m.slotEntries 0 hroom m.globalSequence key
    · rw [deserialize_serialize m _ hn]

end MemIndex

end SpdkKv
