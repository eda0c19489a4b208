import SpdkKv.ReadIntegrity
import SpdkKv.SyncCalls
import SpdkKv.UpsertRoom

/-!
# The Engine as a Map

What the engine is for: `put`, `get` and `del` are the operations of a map from keys to values.
The map takes over what the calls report successful, and the engine behaves as the map when its
answers are those of the map. Nothing stands between the index and the answers: a record that
the index has lost, or whose place it has cut off, is lost.

## Main results

* `MapStore.Inv.step`: a call keeps records behind each other and the index leading to them.
* `MapStore.behaves_as_map`: **the engine behaves as a map along every run** whose puts the index
  takes and whose records and files fit its entries.
* `MapStore.put_loses_key`: a put that returns success and removes another key.
-/

namespace SpdkKv

/-- A synchronous call. -/
inductive SyncCall
  | put (key : UInt64) (value : List UInt8)
  | get (key : UInt64) (mem : ByteMemory) (bufLen : ℕ)
  | del (key : UInt64)

/-- The engine, and the map that its answers have made so far. -/
structure MapStore (n : ℕ) where
  store : KvStore n
  expected : UInt64 → Option (List UInt8)

namespace MapStore

variable {n : ℕ}

/-- A call; what it reports successful is entered into the map. -/
def call (s : MapStore n) : SyncCall → MapStore n
  | .put key value =>
      let (store, status) := s.store.put key value
      ⟨store, if status = .kSuccess then Function.update s.expected key (some value)
        else s.expected⟩
  | .get _ _ _ => s
  | .del key =>
      let (store, status) := s.store.del key
      ⟨store, if status = .kSuccess then Function.update s.expected key none else s.expected⟩

/-- The state after `create`, whatever the new blobs contain. -/
def created (n dataFileSize bufferCount : ℕ) (disk : ByteStore ℕ) : MapStore n where
  store := ⟨(EngineSystem.created (MemIndex.fresh n) dataFileSize bufferCount 0).engine, disk⟩
  expected := fun _ => none

/-- **The answers are those of the map.** -/
structure BehavesAsMap (s : MapStore n) : Prop where
  present : ∀ key value, s.expected key = some value → ∀ mem bufLen, value.length ≤ bufLen →
    s.store.get key mem bufLen true = ⟨.kSuccess, value.length, value⟩
  absent : ∀ key, s.expected key = none → ∀ mem bufLen, bufLen ≠ 0 →
    (s.store.get key mem bufLen true).status = .kKeyNotFound
  del : ∀ key, (s.store.del key).2 = .kKeyNotFound ↔ s.expected key = none

end MapStore

/-- Synchronous calls as a machine. -/
def mapMachine (n : ℕ) : Machine (MapStore n) SyncCall where
  step := fun s c => some (s.call c)

/-! ### The condition -/

/-- The index takes a put of the key: it displaces entries only for a key that is nowhere in
the table and while there is a free slot, it finds room for a new key, and the sequence is newer
than the one that is stored for the key. -/
structure MemIndex.TakesPut {n : ℕ} (m : MemIndex n) (key : UInt64) : Prop where
  orderly : m.Orderly key
  room : m.Absent key → m.FindsRoom key
  newer : ∀ o ∈ m.stored key, MemIndex.sequenceNewer (m.globalSequence + 1) o.sequence = true

namespace MapStore

variable {n : ℕ}

/-- The place of the record of a call. -/
def target (s : MapStore n) (size : ℕ) : Place :=
  let (engine, i) := s.store.engine.chooseFile size
  ⟨i, (engine.space.fileAt i).writeOffset / kPageSize⟩

/-- **When a call is one of a map**: the index takes a put, and its pages and its place fit the
entry; a delete goes to a file that has its id for itself. -/
def Admitted (s : MapStore n) : SyncCall → Prop
  | .put key value => value ≠ [] → s.store.engine.memIndex.TakesPut key ∧
      PagesFit value.length ∧ (s.target (entrySize value.length)).Fits
  | .get _ _ _ => True
  | .del key => (s.store.engine.memIndex.findEntry key).isSome →
      (s.target Engine.tombstoneSize).fileId < 2 ^ 16

end MapStore

/-! ### The invariant -/

namespace KvStore

variable {n : ℕ}

/-- The index leads to a record of the value, which lies in front of the end of its file. -/
structure Leads (s : KvStore n) (key : UInt64) (value : List UInt8) (entry : MemIndexEntry) :
    Prop where
  found : s.engine.memIndex.findEntry key = some entry
  nonempty : value ≠ []
  file : entry.fileId.toNat < s.engine.space.files.length
  inside : entry.offsetIndex.toNat * kPageSize + readSize entry ≤
    (s.engine.space.fileAt entry.fileId.toNat).writeOffset
  intact : IntactPlain (s.pages entry) key value

/-- A record that the index leads to is read. -/
theorem Leads.reads {s : KvStore n} {key : UInt64} {value : List UInt8} {entry : MemIndexEntry}
    (h : s.Leads key value entry) (hready : s.engine.state = .kReady)
    (hwf : s.engine.memIndex.Wf) (hfiles : FilesInOrder s.engine.space) : s.Reads key entry := by
  obtain ⟨-, -, hlive⟩ := hwf.findEntry_eq_some_iff.mp h.found
  refine ⟨hready, ?_⟩
  rw [fetch, h.found]
  simp only [hlive, hfiles.getFile h.file, hfiles.readable _ h.file, hfiles.opened _ h.file]
  rfl

/-- **A write behind the ends of the files** leaves the records alone that the index still leads
to. -/
theorem Leads.of_write {s s' : KvStore n} {key : UInt64} {value : List UInt8}
    {entry : MemIndexEntry} (h : s.Leads key value entry)
    (hfind : s'.engine.memIndex.findEntry key = s.engine.memIndex.findEntry key)
    (hlen : s.engine.space.files.length ≤ s'.engine.space.files.length)
    (hle : ∀ j < s.engine.space.files.length,
      (s.engine.space.fileAt j).writeOffset ≤ (s'.engine.space.fileAt j).writeOffset)
    {fileId offset : ℕ} {bytes : List UInt8}
    (hdisk : s'.disk = s.disk.write fileId offset bytes)
    (hbehind : fileId < s.engine.space.files.length →
      (s.engine.space.fileAt fileId).writeOffset ≤ offset) : s'.Leads key value entry where
  found := hfind.trans h.found
  nonempty := h.nonempty
  file := h.file.trans_le hlen
  inside := h.inside.trans (hle _ h.file)
  intact := by
    have hpages : s'.pages entry = s.pages entry := by
      rw [pages, pages, hdisk]
      by_cases hid : entry.fileId.toNat = fileId
      · have hoff := hbehind (hid ▸ h.file)
        have hinside := h.inside
        rw [hid] at hinside ⊢
        rw [ByteStore.write_self, ByteMemory.read_write_of_disjoint _ (Or.inl (by omega))]
      · rw [ByteStore.write_of_ne _ hid]
    rw [hpages]
    exact h.intact

end KvStore

namespace MapStore

variable {n : ℕ}

/-- The invariant of synchronous runs. -/
structure Inv (s : MapStore n) : Prop where
  ready : s.store.engine.state = .kReady
  wf : s.store.engine.memIndex.Wf
  files : FilesInOrder s.store.engine.space
  present : ∀ key value, s.expected key = some value → ∃ entry, s.store.Leads key value entry
  absent : ∀ key, s.expected key = none → s.store.engine.memIndex.findEntry key = none

theorem inv_created (dataFileSize bufferCount : ℕ) (disk : ByteStore ℕ) :
    (created n dataFileSize bufferCount disk).Inv where
  ready := rfl
  wf := MemIndex.fresh_wf n
  files := by
    have hone : ∀ {P : ℕ → FileInfo → Prop}, P 0 ((FileInfo.fresh 0).opened 1) → ∀ j < 1,
        P j (FileSpace.fileAt (created n dataFileSize bufferCount disk).store.engine.space j) := by
      rintro P hP j hj
      obtain rfl : j = 0 := Nat.lt_one_iff.mp hj
      exact hP
    exact ⟨hone (P := fun j file => file.fileId = j) rfl,
      hone (P := fun _ file => file.blobOpened = true) rfl,
      hone (P := fun _ file => file.isReadable = true) rfl,
      hone (P := fun _ file => file.writeOffset % kPageSize = 0) (Nat.mod_self _), rfl⟩
  present := nofun
  absent := fun key _ => by
    change (MemIndex.fresh n).findEntry key = none
    rw [(MemIndex.fresh_wf n).findEntry_eq, MemIndex.stored_fresh]
    rfl

/-- What `del` reports. -/
theorem Inv.del_status {s : MapStore n} (h : s.Inv) (key : UInt64) :
    (s.store.del key).2 = .kKeyNotFound ↔ s.store.engine.memIndex.findEntry key = none := by
  rw [KvStore.del, Engine.delRequest, if_neg (not_not.mpr h.ready)]
  cases s.store.engine.memIndex.findEntry key with
  | none => exact iff_of_true rfl rfl
  | some entry => exact iff_of_false nofun nofun

/-- The answers of a state with the invariant. -/
theorem Inv.behavesAsMap {s : MapStore n} (h : s.Inv) : s.BehavesAsMap where
  present := by
    intro key value hvalue mem bufLen hbuf
    obtain ⟨entry, hleads⟩ := h.present key value hvalue
    have hpos := List.length_pos_of_ne_nil hleads.nonempty
    exact KvStore.get_of_intact (hleads.reads h.ready h.wf h.files) hleads.intact (by omega) hbuf
  absent := by
    intro key hnone mem bufLen hbuf
    have hfetch : s.store.fetch key = .error .kKeyNotFound := by
      rw [KvStore.fetch, h.absent key hnone]
    rw [KvStore.get, if_neg (not_not.mpr h.ready), if_neg hbuf, hfetch]
  del := by
    intro key
    rw [h.del_status]
    constructor
    · intro hfind
      cases hvalue : s.expected key with
      | none => rfl
      | some value =>
          obtain ⟨entry, hleads⟩ := h.present key value hvalue
          cases hfind.symm.trans hleads.found
    · exact h.absent key

/-! ### Steps -/

/-- Records that a write does not touch stay where they are. -/
theorem Inv.kept {s : MapStore n} (h : s.Inv) {r : SyncRequest}
    (ha : s.store.engine.Appends r) (record : UInt32 → List UInt8) {key : UInt64}
    {value : List UInt8} (hvalue : s.expected key = some value)
    (hfind : (s.store.engine.writeSync r).1.memIndex.findEntry key =
      s.store.engine.memIndex.findEntry key) :
    ∃ entry, (s.store.writeSync r record).1.Leads key value entry := by
  obtain ⟨entry, hleads⟩ := h.present key value hvalue
  refine ⟨entry, hleads.of_write hfind ha.length_le ha.le_writeOffset
    (s.store.writeSync_disk r record) fun hlt => ?_⟩
  rw [ha.fileId] at hlt ⊢
  exact ha.behind hlt

/-- **A synchronous write keeps the invariant** if it leaves the other keys alone and the map
takes over what the index has for its own key. -/
theorem Inv.write {s : MapStore n} (h : s.Inv) {r : SyncRequest}
    (ha : s.store.engine.Appends r) (record : UInt32 → List UInt8) {key : UInt64}
    {value : Option (List UInt8)} (hwf : (s.store.engine.writeSync r).1.memIndex.Wf)
    (hother : ∀ k ≠ key, (s.store.engine.writeSync r).1.memIndex.findEntry k =
      s.store.engine.memIndex.findEntry k)
    (hsome : ∀ v, value = some v →
      ∃ entry, (s.store.writeSync r record).1.Leads key v entry)
    (hnone : value = none → (s.store.engine.writeSync r).1.memIndex.findEntry key = none) :
    Inv ⟨(s.store.writeSync r record).1, Function.update s.expected key value⟩ where
  ready := (Engine.writeSync_state _ _).trans h.ready
  wf := hwf
  files := ha.files
  present := by
    intro k v hk
    by_cases hkey : k = key
    · subst hkey
      exact hsome v ((Function.update_self k value s.expected).symm.trans hk)
    · exact h.kept ha record ((Function.update_of_ne hkey value s.expected).symm.trans hk)
        (hother k hkey)
  absent := by
    intro k hk
    by_cases hkey : k = key
    · subst hkey
      exact hnone ((Function.update_self k value s.expected).symm.trans hk)
    · exact (hother k hkey).trans
        (h.absent k ((Function.update_of_ne hkey value s.expected).symm.trans hk))

/-- The record of a put, and its place. -/
theorem target_eq {s : MapStore n} {r : SyncRequest} (ha : s.store.engine.Appends r) :
    s.target r.alignedSize = ⟨(s.store.engine.writeSync r).2.1.file.fileId,
      (s.store.engine.writeSync r).2.1.file.writeOffset / kPageSize⟩ := by
  rw [ha.fileId, Engine.writeSync_file]
  rfl

/-- The entry of a put is that of its record. -/
theorem entryFor_put (s : MapStore n) (key : UInt64) (value : List UInt8)
    (ha : s.store.engine.Appends ⟨key, entrySize value.length, false, 0⟩) :
    let w := (s.store.engine.writeSync ⟨key, entrySize value.length, false, 0⟩).2.1
    Engine.entryFor w.file w.req = (builtWrite key value
      (s.store.engine.memIndex.globalSequence + 1)).entry (s.target (entrySize value.length)) := by
  dsimp only
  rw [target_eq ha]
  exact Engine.entryFor_eq rfl rfl rfl (s.store.engine.writeSync_sequence _) rfl

/-- **A put the index takes** is found, and the other keys are found as before. -/
theorem Inv.found_put {s : MapStore n} (h : s.Inv) {key : UInt64} {value : List UInt8}
    (ha : s.store.engine.Appends ⟨key, entrySize value.length, false, 0⟩)
    (htakes : s.store.engine.memIndex.TakesPut key) :
    let m := (s.store.engine.writeSync ⟨key, entrySize value.length, false, 0⟩).1.memIndex
    m.Wf ∧ (∀ k ≠ key, m.findEntry k = s.store.engine.memIndex.findEntry k) ∧
      m.findEntry key = some ((builtWrite key value (s.store.engine.memIndex.globalSequence + 1)).entry
        (s.target (entrySize value.length))) := by
  have hwf : s.store.engine.memIndex.allocateSequence.1.Wf := h.wf.withGlobalSequence
  have hop : s.store.engine.memIndex.allocateSequence.1.AcceptedOp
      (.upsert ((builtWrite key value (s.store.engine.memIndex.globalSequence + 1)).entry
        (s.target (entrySize value.length)))) :=
    hwf.acceptedOp_iff.mpr ⟨htakes.orderly,
      fun habs => MemIndex.findsRoom_withGlobalSequence.mpr (htakes.room habs)⟩
  rw [Engine.writeSync_put _ _ rfl, s.entryFor_put key value ha]
  refine ⟨hwf.upsert rfl hop.1, fun k hk => hwf.findEntry_upsert_of_ne hop hk, ?_⟩
  exact (hwf.findEntry_upsert hop rfl htakes.newer).trans (congrArg some (RecordWrite.tagged_entry _ _))

/-- **The record of a put is led to.** -/
theorem Inv.led {s : MapStore n} (h : s.Inv) {key : UInt64} {value : List UInt8}
    (ha : s.store.engine.Appends ⟨key, entrySize value.length, false, 0⟩) (hvalue : value ≠ [])
    (htakes : s.store.engine.memIndex.TakesPut key) (hpages : PagesFit value.length)
    (hfits : (s.target (entrySize value.length)).Fits) :
    ∃ entry, (s.store.writeSync ⟨key, entrySize value.length, false, 0⟩
      fun seq => (builtWrite key value seq).bytes).1.Leads key value entry := by
  obtain ⟨-, -, hfound⟩ := h.found_put ha htakes
  have htarget : s.target (entrySize value.length) = _ := target_eq ha
  have hid : (s.target (entrySize value.length)).fileId =
      (s.store.engine.chooseFile (entrySize value.length)).2 := rfl
  have hoffset : (s.target (entrySize value.length)).offset =
      (s.store.engine.writeSync ⟨key, entrySize value.length, false, 0⟩).2.1.file.writeOffset := by
    rw [Place.offset, htarget]
    exact Nat.div_mul_cancel (Nat.dvd_of_mod_eq_zero ha.aligned)
  have hsmall : entrySize value.length < 2 ^ 32 := by
    rw [PagesFit] at hpages
    rw [entrySize_eq, kPageSize]
    omega
  have hread : KvStore.readSize ((builtWrite key value (s.store.engine.memIndex.globalSequence + 1)).entry
      (s.target (entrySize value.length))) = entrySize value.length := by
    rw [readSize_builtWrite, Nat.mod_eq_of_lt hpages, entrySize_eq]
  have hfile : ((builtWrite key value (s.store.engine.memIndex.globalSequence + 1)).entry
      (s.target (entrySize value.length))).fileId.toNat =
        (s.store.engine.chooseFile (entrySize value.length)).2 := by
    rw [RecordWrite.entry, BitVec.toNat_ofNat, Nat.mod_eq_of_lt hfits.1, hid]
  have hpage : ((builtWrite key value (s.store.engine.memIndex.globalSequence + 1)).entry
      (s.target (entrySize value.length))).offsetIndex.toNat * kPageSize = (s.store.engine.writeSync
        ⟨key, entrySize value.length, false, 0⟩).2.1.file.writeOffset := by
    rw [RecordWrite.entry, BitVec.toNat_ofNat, Nat.mod_eq_of_lt hfits.2, ← hoffset, Place.offset]
  refine ⟨_, hfound, hvalue, ?_, ?_, ?_⟩
  · rw [hfile]
    exact ha.place
  · rw [hfile, hpage, hread]
    exact ha.stop.ge
  · have hbytes := length_builtWrite key value (s.store.engine.memIndex.globalSequence + 1) hsmall
    rw [KvStore.pages, hfile, hpage, hread, KvStore.writeSync_disk, ha.fileId,
      ByteStore.write_self, s.store.engine.writeSync_sequence, ← hbytes, ByteMemory.read_write]
    exact intactPlain_builtWrite key value _ hsmall

/-- The state after a call that is not answered at once. -/
theorem call_put {s : MapStore n} (h : s.Inv) {key : UInt64} {value : List UInt8}
    (hvalue : value ≠ []) : s.call (.put key value) =
      ⟨(s.store.writeSync ⟨key, entrySize value.length, false, 0⟩
        fun seq => (builtWrite key value seq).bytes).1,
        Function.update s.expected key (some value)⟩ := by
  have hlen : value.length ≠ 0 := fun h => hvalue (List.eq_nil_of_length_eq_zero h)
  rw [call, KvStore.put, Engine.putRequest, if_neg (not_not.mpr h.ready), if_neg hlen]
  rfl

/-- **A put keeps the invariant.** -/
theorem Inv.put {s : MapStore n} (h : s.Inv) {key : UInt64} {value : List UInt8}
    (hadm : s.Admitted (.put key value)) : (s.call (.put key value)).Inv := by
  by_cases hvalue : value = []
  · subst hvalue
    have hsame : s.call (.put key []) = s := by
      rw [call, KvStore.put, Engine.putRequest, if_neg (not_not.mpr h.ready)]
      rfl
    rwa [hsame]
  · obtain ⟨htakes, hpages, hfits⟩ := hadm hvalue
    have ha : s.store.engine.Appends ⟨key, entrySize value.length, false, 0⟩ :=
      h.files.appends (hfits.1.trans (by decide)) (by rw [entrySize_eq]; exact Nat.mul_mod_left _ _)
    obtain ⟨hwf, hother, -⟩ := h.found_put ha htakes
    rw [call_put h hvalue]
    refine h.write ha _ hwf hother (fun v hv => ?_) nofun
    obtain rfl := Option.some.inj hv
    exact h.led ha hvalue htakes hpages hfits

/-- **A delete keeps the invariant.** -/
theorem Inv.del {s : MapStore n} (h : s.Inv) {key : UInt64} (hadm : s.Admitted (.del key)) :
    (s.call (.del key)).Inv := by
  cases hfind : s.store.engine.memIndex.findEntry key with
  | none =>
      have hsame : s.call (.del key) = s := by
        rw [call, KvStore.del, Engine.delRequest, if_neg (not_not.mpr h.ready), hfind]
        rfl
      rwa [hsame]
  | some existing =>
      have hplace := hadm (by rw [hfind]; rfl)
      have hcall : s.call (.del key) = ⟨(s.store.writeSync ⟨key, Engine.tombstoneSize, true,
          existing.pageCount.toNat * kPageSize⟩ fun seq => buildEntryInplace key [] seq true).1,
          Function.update s.expected key none⟩ := by
        rw [call, KvStore.del, Engine.delRequest, if_neg (not_not.mpr h.ready), hfind]
        rfl
      have ha : s.store.engine.Appends ⟨key, Engine.tombstoneSize, true,
          existing.pageCount.toNat * kPageSize⟩ :=
        h.files.appends hplace (by rw [Engine.tombstoneSize, entrySize_eq]; exact Nat.mul_mod_left _ _)
      have hm := s.store.engine.writeSync_del ⟨key, Engine.tombstoneSize, true,
        existing.pageCount.toNat * kPageSize⟩ rfl
      have hwf : s.store.engine.memIndex.allocateSequence.1.Wf := h.wf.withGlobalSequence
      rw [hcall]
      refine h.write ha _ ?_ (fun k hk => ?_) nofun fun _ => ?_
      · rw [hm]
        exact hwf.remove key
      · rw [hm, hwf.findEntry_remove_of_ne hk]
        exact MemIndex.findEntry_withGlobalSequence _ _ _
      · rw [hm]
        exact hwf.findEntry_remove key

/-- **Every admitted call keeps the invariant.** -/
theorem Inv.step {s : MapStore n} (h : s.Inv) {c : SyncCall} (hadm : s.Admitted c) :
    (s.call c).Inv := by
  cases c with
  | put key value => exact h.put hadm
  | get key mem bufLen => exact h
  | del key => exact h.del hadm

/-- **The engine behaves as a map** along every run of admitted calls. -/
theorem behaves_as_map {dataFileSize bufferCount : ℕ} {disk : ByteStore ℕ}
    {calls : List SyncCall} {s : MapStore n}
    (hcalls : (mapMachine n).Meets Admitted (created n dataFileSize bufferCount disk) calls)
    (hrun : (mapMachine n).run (created n dataFileSize bufferCount disk) calls = some s) :
    s.BehavesAsMap := by
  refine Inv.behavesAsMap ((mapMachine n).run_invariant Inv ?_
    (inv_created dataFileSize bufferCount disk) hcalls hrun)
  intro s c s' hs hadm hstep
  obtain rfl := Option.some.inj hstep
  exact hs.step hadm

/-- A put into an index of eight slots. -/
theorem behaves_as_map_onePut : ∃ s : MapStore 3,
    (mapMachine 3).run (created 3 (2 ^ 20) 1 fun _ => ByteMemory.zero) [.put 1 [7]] = some s ∧
      s.BehavesAsMap := by
  have haccepted := (MemIndex.fresh_wf 3).acceptedOp_iff.mp
    (MemIndex.fresh_takes 3 { MemIndexEntry.zero with key := 1 }).accepted
  have htakes : (MemIndex.fresh 3).TakesPut 1 :=
    ⟨haccepted.1, haccepted.2, fun o ho => by
      rw [MemIndex.stored_fresh] at ho
      cases ho⟩
  have hfits : PagesFit 1 ∧ (target (created 3 (2 ^ 20) 1 fun _ => ByteMemory.zero)
      (entrySize 1)).Fits := by
    rw [PagesFit, Place.Fits]
    decide
  have hcalls : (mapMachine 3).Meets Admitted (created 3 (2 ^ 20) 1 fun _ => ByteMemory.zero)
      [.put 1 [7]] := ⟨fun _ => ⟨htakes, hfits⟩, fun _ _ => trivial⟩
  exact ⟨_, rfl, behaves_as_map hcalls rfl⟩

end MapStore

/-! ### An index of one slot -/

namespace MemIndex

variable {m : MemIndex 0} {key : UInt64} {e : MemIndexEntry}

theorem eq_zero_of_oneSlot (i : Fin (2 ^ 0)) : i = 0 := Fin.ext (Nat.lt_one_iff.mp i.isLt)

/-- An entry has its place in the empty index. -/
theorem upsert_emptySlot (hvacant : m.vacant 0 = true) (key : UInt64) (e : MemIndexEntry) :
    (m.upsert key e).1.entries 0 = tagged key e ∧ (m.upsert key e).1.psl 0 = 1 := by
  have hbody : (upsertLoop key).body ⟨m, 0, 0, tagged key e⟩ = _ := upsertBody_of_vacant hvacant
  rw [upsert, eq_zero_of_oneSlot (home 0 key), Loop.run_of_done _ hbody]
  have hplaced : (m.place 0 (tagged key e) 1).entries 0 = tagged key e ∧
      (m.place 0 (tagged key e) 1).psl 0 = 1 := ⟨place_entries_self, place_psl_self⟩
  exact hplaced

/-- **An entry of another key takes the place of the one that is there**: it goes round once,
swaps, and stops at itself with the older entry in hand. -/
theorem upsert_takenSlot (he : e.key = key) (hpsl : m.psl 0 = 1)
    (hkey : (m.entries 0).key ≠ key)
    (hseq : sequenceNewer (m.entries 0).sequence e.sequence = false) :
    (m.upsert key e).1.entries 0 = tagged key e := by
  have htaken : m.vacant 0 ≠ true := by simp [vacant, hpsl]
  have hnext : next (0 : Fin (2 ^ 0)) = 0 := eq_zero_of_oneSlot _
  have hwalk : (upsertLoop key).body ⟨m, 0, 0, tagged key e⟩ = _ :=
    upsertBody_of_walk htaken hkey (by dsimp only; omega)
  have hswap : (upsertLoop key).body ⟨m, 0, 1, tagged key e⟩ = _ :=
    upsertBody_of_swap htaken hkey (by dsimp only; omega)
  dsimp only at hwalk hswap
  rw [if_neg (by decide), hnext] at hwalk
  rw [hpsl, if_neg (by decide), hnext] at hswap
  have hstop : (upsertLoop key).body
      ⟨m.place 0 (tagged key e) 1, 0, 1 + 1 + 1, m.entries 0⟩ = _ :=
    upsertBody_of_key (by dsimp only; simp [vacant, place_psl_self])
      (by rw [place_entries_self, tagged_key, he])
  rw [upsert, eq_zero_of_oneSlot (home 0 key), Loop.run_of_again _ hwalk,
    Loop.run_of_again _ hswap, Loop.run_of_done _ hstop]
  dsimp only
  rw [place_entries_self, tagged_sequence, hseq, if_neg Bool.false_ne_true, place_entries_self]

/-- Nothing else is found then. -/
theorem findEntry_upsert_takenSlot (he : e.key = key) (hpsl : m.psl 0 = 1)
    (hkey : (m.entries 0).key ≠ key)
    (hseq : sequenceNewer (m.entries 0).sequence e.sequence = false) {k : UInt64} (hk : k ≠ key) :
    (m.upsert key e).1.findEntry k = none := by
  rw [findEntry, Option.map_eq_none_iff]
  by_contra hne
  obtain ⟨i, hi⟩ := Option.ne_none_iff_exists'.mp hne
  have hmatch := (matches_of_find hi).2.1
  rw [eq_zero_of_oneSlot i, upsert_takenSlot he hpsl hkey hseq, tagged_key, he] at hmatch
  exact hk hmatch.symm

end MemIndex

namespace MapStore

/-- The index and the map after a put. -/
theorem call_put_of_ready {n : ℕ} {s : MapStore n} (h : s.store.engine.state = .kReady)
    (key : UInt64) {value : List UInt8} (hvalue : value ≠ []) :
    ∃ e : MemIndexEntry, e.key = key ∧ e.sequence = s.store.engine.memIndex.globalSequence + 1 ∧
      (s.call (.put key value)).store.engine.memIndex =
        (s.store.engine.memIndex.allocateSequence.1.upsert key e).1 ∧
      (s.call (.put key value)).store.engine.state = .kReady ∧
      (s.call (.put key value)).expected = Function.update s.expected key (some value) := by
  have hlen : value.length ≠ 0 := fun h => hvalue (List.eq_nil_of_length_eq_zero h)
  have hput : s.store.put key value = s.store.writeSync ⟨key, entrySize value.length, false, 0⟩
      fun seq => (builtWrite key value seq).bytes := by
    rw [KvStore.put, Engine.putRequest, if_neg (not_not.mpr h), if_neg hlen]
  refine ⟨_, ?_, ?_, (?_ : _ = (s.store.engine.memIndex.allocateSequence.1.upsert key
    (Engine.entryFor (s.store.engine.writeSync ⟨key, entrySize value.length, false, 0⟩).2.1.file
      (s.store.engine.writeSync ⟨key, entrySize value.length, false, 0⟩).2.1.req)).1), ?_, ?_⟩
  · rfl
  · exact s.store.engine.writeSync_sequence _
  · rw [call, hput]
    exact s.store.engine.writeSync_put _ rfl
  · rw [call, hput]
    exact (s.store.engine.writeSync_state _).trans h
  · rw [call, hput]
    rfl

/-- **A put that returns success and removes another key**: an index of one slot keeps the entry
of the key that was put last. -/
theorem put_loses_key : ∃ t : MapStore 0,
    (mapMachine 0).run (created 0 (2 ^ 20) 1 fun _ => ByteMemory.zero)
      [.put 1 [7], .put 2 [7]] = some t ∧
    t.expected 1 = some [7] ∧ t.expected 2 = some [7] ∧
    (∀ mem bufLen, bufLen ≠ 0 → (t.store.get 1 mem bufLen true).status = .kKeyNotFound) ∧
    ¬ t.BehavesAsMap := by
  obtain ⟨s, hs⟩ : ∃ s, s = created 0 (2 ^ 20) 1 fun _ => ByteMemory.zero := ⟨_, rfl⟩
  have hready : s.store.engine.state = .kReady := by rw [hs]; rfl
  have hfresh : s.store.engine.memIndex = MemIndex.fresh 0 := by rw [hs]; rfl
  obtain ⟨e₁, hkey₁, hseq₁, hindex₁, hready₁, hmap₁⟩ :=
    call_put_of_ready hready 1 (List.cons_ne_nil 7 [])
  obtain ⟨e₂, hkey₂, hseq₂, hindex₂, hready₂, hmap₂⟩ :=
    call_put_of_ready hready₁ 2 (List.cons_ne_nil 7 [])
  rw [hfresh] at hseq₁ hindex₁
  rw [hindex₁] at hseq₂ hindex₂
  rw [MemIndex.globalSequence_upsert] at hseq₂
  obtain ⟨m, hm⟩ : ∃ m, m = ((MemIndex.fresh 0).allocateSequence.1.upsert 1
    e₁).1.allocateSequence.1 := ⟨_, rfl⟩
  rw [← hm] at hindex₂
  obtain ⟨hentry, hpsl⟩ : m.entries 0 = MemIndex.tagged 1 e₁ ∧ m.psl 0 = 1 := by
    have hvacant : (MemIndex.fresh 0).allocateSequence.1.vacant 0 = true := rfl
    rw [hm]
    exact MemIndex.upsert_emptySlot hvacant 1 e₁
  have hlost : (m.upsert 2 e₂).1.findEntry 1 = none := by
    have hkey : (m.entries 0).key ≠ 2 := by
      rw [hentry, MemIndex.tagged_key, hkey₁]
      decide
    have hseq : MemIndex.sequenceNewer (m.entries 0).sequence e₂.sequence = false := by
      rw [hentry, MemIndex.tagged_sequence, hseq₁, hseq₂]
      decide
    have hne : (1 : UInt64) ≠ 2 := by decide
    exact MemIndex.findEntry_upsert_takenSlot hkey₂ hpsl hkey hseq hne
  have hfetch : ((s.call (.put 1 [7])).call (.put 2 [7])).store.fetch 1 =
      .error .kKeyNotFound := by
    rw [KvStore.fetch, hindex₂, hlost]
  have hget : ∀ mem bufLen, bufLen ≠ 0 → (((s.call (.put 1 [7])).call (.put 2 [7])).store.get 1
      mem bufLen true).status = .kKeyNotFound := by
    intro mem bufLen hbuf
    rw [KvStore.get, if_neg (not_not.mpr hready₂), if_neg hbuf, hfetch]
  have hmap : ((s.call (.put 1 [7])).call (.put 2 [7])).expected 1 = some [7] := by
    rw [hmap₂, hmap₁, Function.update_of_ne (by decide), Function.update_self]
  refine ⟨(s.call (.put 1 [7])).call (.put 2 [7]), by rw [← hs]; rfl, hmap, ?_, hget,
    fun hbehaves => ?_⟩
  · rw [hmap₂, Function.update_self]
  · have hvalue := hbehaves.present 1 [7] hmap ByteMemory.zero 1 le_rfl
    have hstatus := hget ByteMemory.zero 1 one_ne_zero
    rw [hvalue] at hstatus
    cases hstatus

end MapStore

end SpdkKv
