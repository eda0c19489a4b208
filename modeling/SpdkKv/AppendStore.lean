import SpdkKv.IndexReferences
import SpdkKv.RecordStore

/-!
# Records That Are Appended

What the writers of an engine do to its index and its data files: a write reserves the pages at
the end of a file, its record lands there at some time, and when it completes the index gets its
entry or loses its key. All sizes are whole pages, as the callers of `put_async` promise. Pages
are reserved once, so a page that no write under way has reserved is settled.

## Main results

* `AppendStore.settled_step`: settled pages keep their bytes.
* `AppendStore.of_used_step`: an entry that is new lies on pages that were not settled.
* `AppendStore.Sound.step`: **every live entry lies on settled pages**, whatever the writers do.
-/

namespace SpdkKv

/-! ### Writers -/

/-- A write under way: the pages that it has reserved and the record that is to land there. -/
structure WriteUnderWay where
  place : Place
  pages : ℕ
  record : RecordWrite
  isDelete : Bool
  landed : Bool

namespace WriteUnderWay

/-- What its completion does to the index. -/
def op (w : WriteUnderWay) : IndexOp :=
  if w.isDelete then .remove w.record.key else .upsert (w.record.entry w.place)

/-- The pages of two writes do not meet. -/
def Apart (w w' : WriteUnderWay) : Prop := w.place.fileId = w'.place.fileId →
  w.place.page + w.pages ≤ w'.place.page ∨ w'.place.page + w'.pages ≤ w.place.page

theorem Apart.symm {w w' : WriteUnderWay} (h : w.Apart w') : w'.Apart w :=
  fun hfile => (h hfile.symm).symm

end WriteUnderWay

/-- The bytes at the place of an entry. -/
def storedRecord (disk : ByteStore ℕ) (e : MemIndexEntry) : List UInt8 :=
  (disk e.fileId.toNat).read e.byteOffset (e.pageCount.toNat * kPageSize)

/-- The index and the files of an engine, with the pages in front of each `write_offset`. -/
structure AppendStore (n : ℕ) where
  memIndex : MemIndex n
  disk : ByteStore ℕ
  writePages : ℕ → ℕ
  underWay : List WriteUnderWay

/-- What writers do. -/
inductive AppendEvent
  /-- Pages at the end of a file are reserved. -/
  | submit (fileId pages : ℕ) (record : RecordWrite) (isDelete : Bool)
  /-- The record of a write is on the disk. -/
  | land (i : ℕ)
  /-- A write completes. -/
  | complete (i : ℕ)
  /-- A write fails. -/
  | fail (i : ℕ)

namespace AppendStore

variable {n : ℕ}

/-- An engine that has just been created, on a disk with arbitrary contents. -/
def created (n : ℕ) (disk : ByteStore ℕ) : AppendStore n := ⟨.fresh n, disk, fun _ => 1, []⟩

/-- The record that the index finds for a key. -/
def recordOf (s : AppendStore n) (key : UInt64) : Option (List UInt8) :=
  (s.memIndex.findEntry key).map (storedRecord s.disk)

/-- One event; a write must fit into its file, and it completes after its record has landed. -/
def step (dataFileSize : ℕ) (s : AppendStore n) : AppendEvent → Option (AppendStore n)
  | .submit fileId pages record isDelete =>
      if 0 < pages ∧ record.bytes.length ≤ pages * kPageSize ∧ record.pageCount.toNat ≤ pages ∧
          (s.writePages fileId + pages) * kPageSize ≤ dataFileSize then
        some { s with
          writePages := Function.update s.writePages fileId (s.writePages fileId + pages)
          underWay := s.underWay ++
            [⟨⟨fileId, s.writePages fileId⟩, pages, record, isDelete, false⟩] }
      else none
  | .land i => s.underWay[i]?.map fun w =>
      { s with
        disk := s.disk.write w.place.fileId w.place.offset w.record.bytes
        underWay := s.underWay.set i { w with landed := true } }
  | .complete i => s.underWay[i]?.bind fun w =>
      if w.landed then
        some { s with memIndex := s.memIndex.applyOp w.op, underWay := s.underWay.eraseIdx i }
      else none
  | .fail i => s.underWay[i]?.map fun _ => { s with underWay := s.underWay.eraseIdx i }

/-- The writers as a machine. -/
def machine (n dataFileSize : ℕ) : Machine (AppendStore n) AppendEvent where
  step := step dataFileSize

/-! ### Settled pages -/

/-- Pages in front of the end of a file that no write under way has reserved. -/
structure Settled (s : AppendStore n) (fileId page count : ℕ) : Prop where
  below : page + count ≤ s.writePages fileId
  apart : ∀ w ∈ s.underWay, w.place.fileId = fileId →
    page + count ≤ w.place.page ∨ w.place.page + w.pages ≤ page

/-- The pages of an entry, and at least its first one. -/
def spanOf (e : MemIndexEntry) : ℕ := max e.pageCount.toNat 1

/-- The entry lies on settled pages behind the header, and not in the file `dest`. -/
structure Lies (s : AppendStore n) (dest : ℕ) (e : MemIndexEntry) : Prop where
  elsewhere : e.fileId.toNat ≠ dest
  behind : 0 < e.offsetIndex.toNat
  settled : s.Settled e.fileId.toNat e.offsetIndex.toNat (spanOf e)

/-- What a write under way has reserved. -/
structure Reserved (s : AppendStore n) (dest : ℕ) (w : WriteUnderWay) : Prop where
  file : w.place.fileId < 1024
  elsewhere : w.place.fileId ≠ dest
  behind : 0 < w.place.page
  nonempty : 0 < w.pages
  room : w.record.bytes.length ≤ w.pages * kPageSize
  count : w.record.pageCount.toNat ≤ w.pages
  below : w.place.page + w.pages ≤ s.writePages w.place.fileId

/-- **What holds of a store**: the index is a map, the writes under way have reserved pages of
their own, and every live entry lies on settled ones. -/
structure Sound (dest : ℕ) (s : AppendStore n) : Prop where
  wf : s.memIndex.Wf
  header : ∀ fileId, 0 < s.writePages fileId
  small : ∀ fileId, s.writePages fileId * kPageSize ≤ kDefaultFileSize
  reserved : ∀ w ∈ s.underWay, s.Reserved dest w
  apart : s.underWay.Pairwise WriteUnderWay.Apart
  live : MemIndex.AllUsed (fun e => e.deleted = false → s.Lies dest e) s.memIndex

theorem sound_created (dest : ℕ) (disk : ByteStore ℕ) : (created n disk).Sound dest where
  wf := MemIndex.fresh_wf n
  header := fun _ => Nat.one_pos
  small := fun _ => by
    show 1 * kPageSize ≤ kDefaultFileSize
    decide
  reserved := fun _ hw => absurd hw List.not_mem_nil
  apart := .nil
  live := fun i hi => by
    have hvacant := ((MemIndex.fresh_wf n).vacant_iff i).mpr (Nat.lt_irrefl 0)
    cases hi.symm.trans hvacant

/-- The writers keep away from the file `dest`, and their calls of the index are orderly. -/
def Admitted (dest : ℕ) (s : AppendStore n) : AppendEvent → Prop
  | .submit fileId _ _ _ => fileId < 1024 ∧ fileId ≠ dest
  | .complete i => ∀ w, s.underWay[i]? = some w → s.memIndex.OrderlyOp w.op
  | _ => True

section Step

variable {dataFileSize dest fileId page count : ℕ} {s s' : AppendStore n} {event : AppendEvent}

/-- The places of the writes under way, which stay as they are when a record lands. -/
theorem forall_set_iff {P : Place → ℕ → Prop} {i : ℕ} {w : WriteUnderWay}
    (hw : s.underWay[i]? = some w) (h : ∀ w ∈ s.underWay, P w.place w.pages) :
    ∀ w' ∈ s.underWay.set i { w with landed := true }, P w'.place w'.pages := by
  intro w' hw'
  rcases List.mem_or_eq_of_mem_set hw' with hin | rfl
  · exact h w' hin
  · exact h w (List.mem_of_getElem? hw)

/-- **Settled pages stay settled and keep their bytes.** -/
theorem settled_step (hs : s.Sound dest) (hstep : s.step dataFileSize event = some s')
    (h : s.Settled fileId page count) : s'.Settled fileId page count ∧ ∀ k ≤ count,
      (s'.disk fileId).read (page * kPageSize) (k * kPageSize) =
        (s.disk fileId).read (page * kPageSize) (k * kPageSize) := by
  cases event with
  | submit file pages record isDelete =>
      rw [step] at hstep
      split_ifs at hstep with hfits
      obtain rfl := Option.some.inj hstep
      refine ⟨⟨?_, fun w hw hfile => ?_⟩, fun _ _ => rfl⟩
      · have hbelow := h.below
        by_cases hf : fileId = file
        · subst hf
          simp only [Function.update_self]
          omega
        · simpa only [Function.update_of_ne hf] using hbelow
      · rcases List.mem_append.mp hw with hin | hnew
        · exact h.apart w hin hfile
        · obtain rfl := List.mem_singleton.mp hnew
          obtain rfl := hfile
          exact .inl h.below
  | land i =>
      obtain ⟨w, hw, rfl⟩ := Option.map_eq_some_iff.mp hstep
      have hmem := List.mem_of_getElem? hw
      refine ⟨⟨h.below, ?_⟩, fun k hk => ?_⟩
      · exact forall_set_iff (P := fun place pages => place.fileId = fileId →
          page + count ≤ place.page ∨ place.page + pages ≤ page) hw h.apart
      · -- the record lands on pages of its own
        by_cases hf : fileId = w.place.fileId
        · subst hf
          dsimp only
          rw [ByteStore.write_self]
          refine ByteMemory.read_write_of_disjoint _ ?_
          have hroom := (hs.reserved w hmem).room
          have hapart := h.apart w hmem rfl
          rw [Place.offset, kPageSize] at *
          omega
        · dsimp only
          rw [ByteStore.write_of_ne _ hf]
  | complete i =>
      obtain ⟨w, hw, hcomplete⟩ := Option.bind_eq_some_iff.mp hstep
      split_ifs at hcomplete
      obtain rfl := Option.some.inj hcomplete
      exact ⟨⟨h.below, fun w' hw' => h.apart w' (List.mem_of_mem_eraseIdx hw')⟩, fun _ _ => rfl⟩
  | fail i =>
      obtain ⟨w, hw, rfl⟩ := Option.map_eq_some_iff.mp hstep
      exact ⟨⟨h.below, fun w' hw' => h.apart w' (List.mem_of_mem_eraseIdx hw')⟩, fun _ _ => rfl⟩

/-- Files only grow. -/
theorem writePages_le_step (hstep : s.step dataFileSize event = some s') (fileId : ℕ) :
    s.writePages fileId ≤ s'.writePages fileId := by
  cases event with
  | submit file pages record isDelete =>
      rw [step] at hstep
      split_ifs at hstep
      obtain rfl := Option.some.inj hstep
      by_cases hf : fileId = file
      · subst hf
        simp only [Function.update_self]
        exact Nat.le_add_right _ _
      · simp only [Function.update_of_ne hf]
        exact le_rfl
  | land i =>
      obtain ⟨w, -, rfl⟩ := Option.map_eq_some_iff.mp hstep
      exact le_rfl
  | complete i =>
      obtain ⟨w, -, hcomplete⟩ := Option.bind_eq_some_iff.mp hstep
      split_ifs at hcomplete
      obtain rfl := Option.some.inj hcomplete
      exact le_rfl
  | fail i =>
      obtain ⟨w, -, rfl⟩ := Option.map_eq_some_iff.mp hstep
      exact le_rfl

/-- The end of a file may grow. -/
theorem Reserved.mono {w : WriteUnderWay} (h : s.Reserved dest w)
    (hle : s.writePages w.place.fileId ≤ s'.writePages w.place.fileId) : s'.Reserved dest w :=
  ⟨h.file, h.elsewhere, h.behind, h.nonempty, h.room, h.count, h.below.trans hle⟩

/-- The entry of a write names its file and its page. -/
theorem Reserved.fileId_entry {w : WriteUnderWay} (h : s.Reserved dest w) :
    (w.record.entry w.place).fileId.toNat = w.place.fileId := by
  show w.place.fileId % 2 ^ 10 = w.place.fileId
  exact Nat.mod_eq_of_lt h.file

theorem Sound.offsetIndex_entry (hs : s.Sound dest) {w : WriteUnderWay} (hw : w ∈ s.underWay) :
    (w.record.entry w.place).offsetIndex.toNat = w.place.page := by
  have hreserved := hs.reserved w hw
  have hbelow := hreserved.below
  have hnonempty := hreserved.nonempty
  have hsmall := hs.small w.place.fileId
  rw [kPageSize, kDefaultFileSize] at hsmall
  show w.place.page % 2 ^ 21 = w.place.page
  exact Nat.mod_eq_of_lt (by omega)

/-- A live entry after the completion of a write was in the table before, or it is that of the
write. -/
theorem of_applyOp (m : MemIndex n) (w : WriteUnderWay) : MemIndex.AllUsed
    (fun e => e.deleted = false → m.InTable e ∨ e = w.record.entry w.place) (m.applyOp w.op) := by
  rw [WriteUnderWay.op]
  split_ifs
  · intro j hj hlive
    rcases MemIndex.of_remove j hj with hdead | hold
    · cases hdead.symm.trans hlive
    · exact .inl hold
  · intro j hj _
    rcases MemIndex.of_upsert j hj with hnew | hold
    · exact .inr hnew
    · exact .inl hold

/-- **An entry that is new** lies on pages that were not settled. -/
theorem of_used_step (hs : s.Sound dest) (hstep : s.step dataFileSize event = some s') :
    MemIndex.AllUsed (fun e => e.deleted = false → s.memIndex.InTable e ∨
      ∀ count, 0 < count → ¬ s.Settled e.fileId.toNat e.offsetIndex.toNat count) s'.memIndex := by
  have hold : MemIndex.AllUsed (fun e => e.deleted = false → s.memIndex.InTable e ∨
      ∀ count, 0 < count → ¬ s.Settled e.fileId.toNat e.offsetIndex.toNat count) s.memIndex :=
    fun j hj _ => .inl ⟨j, hj, rfl⟩
  cases event with
  | submit file pages record isDelete =>
      rw [step] at hstep
      split_ifs at hstep
      obtain rfl := Option.some.inj hstep
      exact hold
  | land i =>
      obtain ⟨w, -, rfl⟩ := Option.map_eq_some_iff.mp hstep
      exact hold
  | complete i =>
      obtain ⟨w, hw, hcomplete⟩ := Option.bind_eq_some_iff.mp hstep
      split_ifs at hcomplete
      obtain rfl := Option.some.inj hcomplete
      have hmem := List.mem_of_getElem? hw
      intro j hj hlive
      refine (of_applyOp s.memIndex w j hj hlive).imp id fun hnew count hpos hsettled => ?_
      rw [hnew, (hs.reserved w hmem).fileId_entry, hs.offsetIndex_entry hmem] at hsettled
      have hapart := hsettled.apart w hmem rfl
      have hnonempty := (hs.reserved w hmem).nonempty
      omega
  | fail i =>
      obtain ⟨w, -, rfl⟩ := Option.map_eq_some_iff.mp hstep
      exact hold

/-- A record that lands leaves the reserved pages apart. -/
theorem pairwise_apart_set {writes : List WriteUnderWay} {i : ℕ} {w : WriteUnderWay}
    (hw : writes[i]? = some w) (h : writes.Pairwise WriteUnderWay.Apart) :
    (writes.set i { w with landed := true }).Pairwise WriteUnderWay.Apart := by
  rw [List.pairwise_iff_getElem] at h ⊢
  obtain ⟨hi, rfl⟩ := List.getElem?_eq_some_iff.mp hw
  intro a b ha hb hab
  rw [List.length_set] at ha hb
  have hapart := h a b ha hb hab
  rw [List.getElem_set, List.getElem_set]
  split_ifs with h₁ h₂ h₂
  · omega
  · subst h₁
    exact hapart
  · subst h₂
    exact hapart
  · exact hapart

/-- The pages of a write are apart from those of the others. -/
theorem apart_of_mem_eraseIdx {writes : List WriteUnderWay} {i : ℕ} {w w' : WriteUnderWay}
    (h : writes.Pairwise WriteUnderWay.Apart) (hw : writes[i]? = some w)
    (hw' : w' ∈ writes.eraseIdx i) : w'.Apart w := by
  rw [List.pairwise_iff_getElem] at h
  obtain ⟨hi, rfl⟩ := List.getElem?_eq_some_iff.mp hw
  obtain ⟨j, hj, hne, rfl⟩ := List.mem_eraseIdx_iff_getElem.mp hw'
  rcases Nat.lt_or_gt_of_ne hne with hlt | hgt
  · exact h j i hj hi hlt
  · exact (h i j hi hj hgt).symm

/-- **Every event keeps a store sound.** -/
theorem Sound.step (hs : s.Sound dest) (hsize : dataFileSize ≤ kDefaultFileSize)
    (hadmitted : s.Admitted dest event) (hstep : s.step dataFileSize event = some s') :
    s'.Sound dest := by
  have hlies : ∀ e, s.Lies dest e → s'.Lies dest e := fun e h =>
    ⟨h.elsewhere, h.behind, (settled_step hs hstep h.settled).1⟩
  have hmono := writePages_le_step hstep
  cases event with
  | submit file pages record isDelete =>
      rw [AppendStore.step] at hstep
      split_ifs at hstep with hfits
      obtain rfl := Option.some.inj hstep
      obtain ⟨hpos, hroom, hcount, hend⟩ := hfits
      refine ⟨hs.wf, fun f => (hs.header f).trans_le (hmono f), fun f => ?_, fun w hw => ?_, ?_,
        fun j hj hlive => hlies _ (hs.live j hj hlive)⟩
      · by_cases hf : f = file
        · subst hf
          simp only [Function.update_self]
          exact hend.trans hsize
        · simp only [Function.update_of_ne hf]
          exact hs.small f
      · rcases List.mem_append.mp hw with hin | hnew
        · exact (hs.reserved w hin).mono (hmono _)
        · obtain rfl := List.mem_singleton.mp hnew
          refine ⟨hadmitted.1, hadmitted.2, hs.header file, hpos, hroom, hcount, ?_⟩
          simp only [Function.update_self]
          exact le_rfl
      · refine List.pairwise_append.mpr
          ⟨hs.apart, List.pairwise_singleton _ _, fun w hw w' hw' => ?_⟩
        obtain rfl := List.mem_singleton.mp hw'
        intro hfile
        have hbelow := (hs.reserved w hw).below
        rw [hfile] at hbelow
        exact .inl hbelow
  | land i =>
      obtain ⟨w, hw, rfl⟩ := Option.map_eq_some_iff.mp hstep
      refine ⟨hs.wf, hs.header, hs.small, fun w' hw' => ?_, pairwise_apart_set hw hs.apart,
        fun j hj hlive => hlies _ (hs.live j hj hlive)⟩
      rcases List.mem_or_eq_of_mem_set hw' with hin | rfl
      · exact (hs.reserved w' hin).mono le_rfl
      · have hold := hs.reserved w (List.mem_of_getElem? hw)
        exact ⟨hold.file, hold.elsewhere, hold.behind, hold.nonempty, hold.room, hold.count,
          hold.below⟩
  | complete i =>
      obtain ⟨w, hw, hcomplete⟩ := Option.bind_eq_some_iff.mp hstep
      split_ifs at hcomplete
      obtain rfl := Option.some.inj hcomplete
      have hmem := List.mem_of_getElem? hw
      have hreserved := hs.reserved w hmem
      refine ⟨hs.wf.applyOp (hadmitted w hw), hs.header, hs.small, fun w' hw' => ?_,
        hs.apart.sublist (List.eraseIdx_sublist _ _), fun j hj hlive => ?_⟩
      · exact (hs.reserved w' (List.mem_of_mem_eraseIdx hw')).mono le_rfl
      · rcases of_applyOp s.memIndex w j hj hlive with ⟨k, hk, hsame⟩ | hnew
        · rw [← hsame] at hlive ⊢
          exact hlies _ (hs.live k hk hlive)
        · -- the pages of the write are settled now
          have hspan : spanOf (w.record.entry w.place) ≤ w.pages :=
            max_le hreserved.count hreserved.nonempty
          rw [hnew]
          refine ⟨?_, ?_, ?_⟩
          · rw [hreserved.fileId_entry]
            exact hreserved.elsewhere
          · rw [hs.offsetIndex_entry hmem]
            exact hreserved.behind
          · rw [hreserved.fileId_entry, hs.offsetIndex_entry hmem]
            refine ⟨(Nat.add_le_add_left hspan _).trans hreserved.below, fun w' hw' hfile => ?_⟩
            have hapart := apart_of_mem_eraseIdx hs.apart hw hw' hfile
            omega
  | fail i =>
      obtain ⟨w, -, rfl⟩ := Option.map_eq_some_iff.mp hstep
      exact ⟨hs.wf, hs.header, hs.small,
        fun w' hw' => (hs.reserved w' (List.mem_of_mem_eraseIdx hw')).mono le_rfl,
        hs.apart.sublist (List.eraseIdx_sublist _ _),
        fun j hj hlive => hlies _ (hs.live j hj hlive)⟩

end Step

end AppendStore

end SpdkKv
