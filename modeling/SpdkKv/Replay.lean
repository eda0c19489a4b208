import SpdkKv.LogLayout
import SpdkKv.Settle

/-!
# Replaying Log Records

Recovery feeds buffers of log records through `parse_and_rebuild_entries`. The order in
which it meets the records of a key is not the order of their sequences: files are scanned
by id, and compaction copies old records into newer files. Records of a put go through the
sequence comparison of `upsert`; a tombstone removes whatever entry is there.

## Main results

* `IndexLoader.replay_memIndex`: a replay is a run of the index.
* `replay_settles_iff`: **when a replay leaves the newest record of every key** — exactly
  when, for the newest put of a key, a tombstone is met after it if and only if a tombstone
  is newer than it.
* `replay_depends_on_order`: a tombstone met before an older put is without effect.
-/

namespace SpdkKv

/-! ### Buffers of records -/

/-- A log record: a put or a tombstone. -/
structure LogRecord where
  key : UInt64
  value : List UInt8
  seq : UInt32
  tomb : Bool

/-- A buffer handed to the parser: records from an offset of a file on. -/
structure LogBuffer where
  fileId : ℕ
  baseOffset : ℕ
  records : List LogRecord

/-- The record as a piece of a file. -/
def LogRecord.item (r : LogRecord) : LogItem := .record r.key r.value r.seq r.tomb

/-- The bytes of a buffer. -/
def LogBuffer.bytes (b : LogBuffer) : List UInt8 := image (b.records.map LogRecord.item)

/-- The records of a buffer with the index entries for their places. -/
def placed (fileId baseOffset : ℕ) : List LogRecord → ℕ → List (LogRecord × MemIndexEntry)
  | [], _ => []
  | r :: rs, offset =>
      (r, rebuiltEntry fileId baseOffset
        ⟨offset, entrySize r.value.length, r.key, r.seq, r.tomb⟩) ::
        placed fileId baseOffset rs (offset + entrySize r.value.length)

/-- Everything that is fed to the parser, in order. -/
def fedPlaced (bufs : List LogBuffer) : List (LogRecord × MemIndexEntry) :=
  bufs.flatMap fun b => placed b.fileId b.baseOffset b.records 0

/-- The records that are fed to the parser, in order. -/
def fed (bufs : List LogBuffer) : List LogRecord := bufs.flatMap LogBuffer.records

/-- The call to the index for a record. -/
def replayOp (p : LogRecord × MemIndexEntry) : IndexOp :=
  if p.1.tomb then .remove p.1.key else .upsert p.2

/-- The calls to the index of a replay. -/
def replayOps (bufs : List LogBuffer) : List IndexOp := (fedPlaced bufs).map replayOp

theorem placed_map_fst (fileId baseOffset : ℕ) (rs : List LogRecord) (offset : ℕ) :
    (placed fileId baseOffset rs offset).map Prod.fst = rs := by
  induction rs generalizing offset with
  | nil => rfl
  | cons r rs ih => rw [placed, List.map_cons, ih]

theorem fedPlaced_map_fst (bufs : List LogBuffer) : (fedPlaced bufs).map Prod.fst = fed bufs := by
  simp only [fedPlaced, fed, List.map_flatMap, placed_map_fst]

/-- The entry for a record carries its key, its sequence and its kind. -/
theorem placed_entry {fileId baseOffset : ℕ} {rs : List LogRecord} {offset : ℕ}
    {p : LogRecord × MemIndexEntry} (h : p ∈ placed fileId baseOffset rs offset) :
    p.2.key = p.1.key ∧ p.2.sequence = p.1.seq ∧ p.2.deleted = p.1.tomb := by
  induction rs generalizing offset with
  | nil => cases h
  | cons r rs ih =>
      rw [placed] at h
      rcases List.mem_cons.mp h with rfl | h
      · exact ⟨rfl, rfl, rfl⟩
      · exact ih h

theorem fedPlaced_entry {bufs : List LogBuffer} {p : LogRecord × MemIndexEntry}
    (h : p ∈ fedPlaced bufs) :
    p.2.key = p.1.key ∧ p.2.sequence = p.1.seq ∧ p.2.deleted = p.1.tomb := by
  obtain ⟨b, -, hp⟩ := List.mem_flatMap.mp h
  exact placed_entry hp

/-! ### A replay is a run of the index -/

namespace IndexLoader

variable {n : ℕ}

/-- Feeding buffers to the parser one after the other. -/
def replay (self : IndexLoader n) (bufs : List LogBuffer) : IndexLoader n :=
  bufs.foldl (fun s b => (s.parseAndRebuildEntries b.bytes b.fileId b.baseOffset).1) self

theorem applyRecord_memIndex (fileId baseOffset : ℕ) (self : IndexLoader n)
    (r : ParsedRecord) : (applyRecord fileId baseOffset self r).memIndex =
      self.memIndex.applyOp (recordOp fileId baseOffset r) := by
  rw [applyRecord, recordOp]
  split_ifs <;> rfl

theorem wfLog_items {rs : List LogRecord} (h : ∀ r ∈ rs, r.value.length < 2 ^ 32) :
    WfLog (rs.map LogRecord.item) := by
  induction rs with
  | nil => trivial
  | cons r rs ih =>
      exact ⟨h r List.mem_cons_self, ih fun s hs => h s (List.mem_cons_of_mem _ hs)⟩

theorem foldl_applyRecord_memIndex (fileId baseOffset : ℕ) (rs : List LogRecord)
    (offset : ℕ) (self : IndexLoader n) :
    ((appended (rs.map LogRecord.item) offset).foldl (applyRecord fileId baseOffset)
      self).memIndex =
      ((placed fileId baseOffset rs offset).map replayOp).foldl MemIndex.applyOp
        self.memIndex := by
  induction rs generalizing offset self with
  | nil => rfl
  | cons r rs ih =>
      rw [List.map_cons, LogRecord.item, appended, placed, List.map_cons, List.foldl_cons,
        List.foldl_cons, ih, applyRecord_memIndex]
      rfl

/-- **A replay is a run of the index** over the calls of its records. -/
theorem replay_memIndex (self : IndexLoader n) {bufs : List LogBuffer}
    (hv : ∀ r ∈ fed bufs, r.value.length < 2 ^ 32) :
    (self.replay bufs).memIndex = (replayOps bufs).foldl MemIndex.applyOp self.memIndex := by
  induction bufs generalizing self with
  | nil => rfl
  | cons b bufs ih =>
      have hb : ∀ r ∈ b.records, r.value.length < 2 ^ 32 := fun r hr =>
        hv r (List.mem_flatMap.mpr ⟨b, List.mem_cons_self, hr⟩)
      have hrest : ∀ r ∈ fed bufs, r.value.length < 2 ^ 32 := fun r hr => by
        obtain ⟨c, hc, hr⟩ := List.mem_flatMap.mp hr
        exact hv r (List.mem_flatMap.mpr ⟨c, List.mem_cons_of_mem _ hc, hr⟩)
      have hstep := foldl_applyRecord_memIndex b.fileId b.baseOffset b.records 0 self
      rw [← recordsFrom_image (wfLog_items hb)] at hstep
      have hall := ih (self.parseAndRebuildEntries b.bytes b.fileId b.baseOffset).1 hrest
      rw [replay, List.foldl_cons]
      refine hall.trans ?_
      rw [parseAndRebuildEntries_eq]
      dsimp only
      rw [LogBuffer.bytes, hstep, replayOps, replayOps, fedPlaced, fedPlaced,
        List.flatMap_cons, List.map_append, List.foldl_append]

end IndexLoader

/-! ### The newest record of a key -/

/-- The record is one of the list and none of its key is newer. -/
def IsNewest (recs : List LogRecord) (w : LogRecord) : Prop :=
  w ∈ recs ∧ ∀ r ∈ recs, r.key = w.key → ¬ MemIndex.sequenceNewer r.seq w.seq

/-- The record is a put of the list and no put of its key is newer. -/
def IsNewestPut (recs : List LogRecord) (p : LogRecord) : Prop :=
  p ∈ recs ∧ p.tomb = false ∧
    ∀ r ∈ recs, r.key = p.key → r.tomb = false → ¬ MemIndex.sequenceNewer r.seq p.seq

/-- A tombstone of the key comes after the put, or after a copy of it. -/
def TombstoneAfter (recs : List LogRecord) (p : LogRecord) : Prop :=
  ∃ q t, [q, t].Sublist recs ∧ q.key = p.key ∧ q.seq = p.seq ∧ q.tomb = false ∧
    t.key = p.key ∧ t.tomb = true

/-- A tombstone of the key is newer than the put. -/
def TombstoneNewer (recs : List LogRecord) (p : LogRecord) : Prop :=
  ∃ t ∈ recs, t.key = p.key ∧ t.tomb = true ∧ MemIndex.sequenceNewer t.seq p.seq

/-- What the claim of a replay is about: records of a key that agree in the sequence are
copies of one record, and its sequences lie within a window shorter than `2 ^ 31`. -/
structure ValidRecords (recs : List LogRecord) (base : UInt64 → UInt32) : Prop where
  /-- The length field holds the length of the value. -/
  length_lt : ∀ r ∈ recs, r.value.length < 2 ^ 32
  /-- Copies. -/
  copies : ∀ r ∈ recs, ∀ s ∈ recs, r.key = s.key → r.seq = s.seq → r.tomb = s.tomb
  /-- The window. -/
  window : ∀ r ∈ recs, (r.seq - base r.key).toNat < 2 ^ 31

/-- The index shows the newest record of every key: nothing for a key without a record or
whose newest record is a tombstone, and an entry with the sequence of the newest record
otherwise. -/
structure ShowsNewest {n : ℕ} (m : MemIndex n) (recs : List LogRecord) : Prop where
  /-- Keys without a record. -/
  absent : ∀ key, (∀ r ∈ recs, r.key ≠ key) → m.findEntry key = none
  /-- Keys with a record. -/
  newest : ∀ w, IsNewest recs w →
    if w.tomb then m.findEntry w.key = none
    else ∃ e, m.findEntry w.key = some e ∧ e.sequence = w.seq

/-- The records of a replay as they reach the index. -/
def replayed : Arrivals (LogRecord × MemIndexEntry) where
  key := fun p => p.1.key
  sequence := fun p => p.1.seq
  tomb := fun p => p.1.tomb
  entry := fun p => p.2

theorem replayOps_eq (bufs : List LogBuffer) :
    replayOps bufs = (fedPlaced bufs).map replayed.call := rfl

theorem mem_fed_of_mem {bufs : List LogBuffer} {p : LogRecord × MemIndexEntry}
    (h : p ∈ fedPlaced bufs) : p.1 ∈ fed bufs := by
  rw [← fedPlaced_map_fst]
  exact List.mem_map_of_mem h

theorem exists_placed {bufs : List LogBuffer} {r : LogRecord} (h : r ∈ fed bufs) :
    ∃ p ∈ fedPlaced bufs, p.1 = r := by
  rw [← fedPlaced_map_fst] at h
  exact List.mem_map.mp h

/-- Valid records are valid arrivals at an empty index. -/
theorem ValidRecords.arrivals {bufs : List LogBuffer} {base : UInt64 → UInt32}
    (hv : ValidRecords (fed bufs) base) :
    replayed.Valid (fedPlaced bufs) base fun _ => none where
  entry_eq := by
    intro p hp ht
    obtain ⟨hk, hs, hd⟩ := fedPlaced_entry hp
    exact ⟨hk, hs, hd.trans ht⟩
  window := fun p hp => hv.window p.1 (mem_fed_of_mem hp)
  older := fun _ _ _ he => by cases he
  copies := fun p hp q hq hk hs => hv.copies _ (mem_fed_of_mem hp) _ (mem_fed_of_mem hq) hk hs

section Arrivals

variable {bufs : List LogBuffer} {p : LogRecord × MemIndexEntry} (hp : p ∈ fedPlaced bufs)
include hp

theorem replayed_isNewest_iff :
    replayed.IsNewest (fedPlaced bufs) p ↔ IsNewest (fed bufs) p.1 := by
  constructor
  · rintro ⟨-, h⟩
    refine ⟨mem_fed_of_mem hp, fun r hr => ?_⟩
    obtain ⟨q, hq, rfl⟩ := exists_placed hr
    exact h q hq
  · rintro ⟨-, h⟩
    exact ⟨hp, fun q hq => h q.1 (mem_fed_of_mem hq)⟩

theorem replayed_isNewestPut_iff :
    replayed.IsNewestPut (fedPlaced bufs) p ↔ IsNewestPut (fed bufs) p.1 := by
  constructor
  · rintro ⟨-, ht, h⟩
    refine ⟨mem_fed_of_mem hp, ht, fun r hr => ?_⟩
    obtain ⟨q, hq, rfl⟩ := exists_placed hr
    exact h q hq
  · rintro ⟨-, ht, h⟩
    exact ⟨hp, ht, fun q hq => h q.1 (mem_fed_of_mem hq)⟩

omit hp in
theorem replayed_tombAfter_iff (bufs : List LogBuffer) (p : LogRecord × MemIndexEntry) :
    replayed.TombAfter (fedPlaced bufs) p ↔ TombstoneAfter (fed bufs) p.1 := by
  constructor
  · rintro ⟨i, j, hsub, h⟩
    refine ⟨i.1, j.1, ?_, h⟩
    rw [← fedPlaced_map_fst]
    exact hsub.map Prod.fst
  · rintro ⟨q, t, hsub, h⟩
    rw [← fedPlaced_map_fst, List.sublist_map_iff] at hsub
    obtain ⟨l, hl, heq⟩ := hsub
    obtain ⟨i, j, rfl⟩ : ∃ i j, l = [i, j] := by
      match l, heq with
      | [i, j], _ => exact ⟨i, j, rfl⟩
    obtain ⟨rfl, rfl⟩ : q = i.1 ∧ t = j.1 := by simpa using heq
    exact ⟨i, j, hl, h⟩

omit hp in
theorem replayed_tombNewer_iff (bufs : List LogBuffer) (p : LogRecord × MemIndexEntry) :
    replayed.TombNewer (fedPlaced bufs) p ↔ TombstoneNewer (fed bufs) p.1 := by
  constructor
  · rintro ⟨j, hj, h⟩
    exact ⟨j.1, mem_fed_of_mem hj, h⟩
  · rintro ⟨t, ht, h⟩
    obtain ⟨j, hj, rfl⟩ := exists_placed ht
    exact ⟨j, hj, h⟩

end Arrivals

/-- **When a replay leaves the newest record of every key.** Feeding valid records in any
order and with any repetitions, through calls that the index accepts, shows the newest
record of every key if and only if, for the newest put of every key, a tombstone is met
after it exactly when one is newer. -/
theorem replay_settles_iff {n : ℕ} {bufs : List LogBuffer} {base : UInt64 → UInt32}
    (hv : ValidRecords (fed bufs) base)
    (hops : (MemIndex.indexMachine n).Meets MemIndex.AcceptedOp (MemIndex.fresh n)
      (replayOps bufs)) :
    ShowsNewest ((⟨MemIndex.fresh n, 0⟩ : IndexLoader n).replay bufs).memIndex (fed bufs) ↔
      ∀ p, IsNewestPut (fed bufs) p →
        (TombstoneAfter (fed bufs) p ↔ TombstoneNewer (fed bufs) p) := by
  have hrun := fun key => (MemIndex.fresh_wf n).stored_run hops key
  rw [IndexLoader.replay_memIndex _ hv.length_lt]
  dsimp only
  generalize (replayOps bufs).foldl MemIndex.applyOp (MemIndex.fresh n) = m at hrun ⊢
  have hm : m.Wf := (hrun 0).1
  have hst (key : UInt64) :
      m.stored key = newestEntry.run replayed.cmd (replayed.on (fedPlaced bufs) key) none := by
    rw [(hrun key).2, replayOps_eq, hv.arrivals.filterMap_cmdFor, NewestWins.run_map,
      MemIndex.stored_fresh]
  have hshows : ShowsNewest m (fed bufs) ↔ replayed.Shows m (fedPlaced bufs) := by
    constructor
    · intro h p hp
      have hnew := h.newest p.1 ((replayed_isNewest_iff hp.1).mp hp)
      by_cases ht : replayed.tomb p = true
      · rw [if_pos ht]
        rwa [if_pos (show p.1.tomb = true from ht)] at hnew
      · rw [if_neg ht]
        rw [if_neg (show ¬ p.1.tomb = true from ht)] at hnew
        obtain ⟨e, he, -⟩ := hnew
        exact hv.arrivals.exists_put_of_findEntry hm hst hp (Bool.eq_false_iff.mpr ht)
          (he.trans_ne (Option.some_ne_none e))
    · intro h
      refine ⟨fun key hno => ?_, fun w hw => ?_⟩
      · have hnil : replayed.on (fedPlaced bufs) key = [] :=
          List.filter_eq_nil_iff.mpr fun p hp =>
            mt of_decide_eq_true (hno p.1 (mem_fed_of_mem hp))
        rw [hm.findEntry_eq, hst, hnil]
        rfl
      · obtain ⟨p, hp, rfl⟩ := exists_placed hw.1
        have hnew := h p ((replayed_isNewest_iff hp).mpr hw)
        by_cases ht : p.1.tomb = true
        · rw [if_pos ht]
          rwa [if_pos (show replayed.tomb p = true from ht)] at hnew
        · rw [if_neg ht]
          rw [if_neg (show ¬ replayed.tomb p = true from ht)] at hnew
          obtain ⟨q, hq, -, hs, -, he⟩ := hnew
          refine ⟨_, he, ?_⟩
          rw [MemIndex.tagged_sequence]
          exact (fedPlaced_entry hq).2.1.trans hs
  rw [hshows, hv.arrivals.shows_iff hm hst]
  constructor
  · intro h r hr
    obtain ⟨p, hp, rfl⟩ := exists_placed hr.1
    rw [← replayed_tombAfter_iff, ← replayed_tombNewer_iff]
    exact h p ((replayed_isNewestPut_iff hp).mpr hr)
  · intro h p hp
    rw [replayed_tombAfter_iff, replayed_tombNewer_iff]
    exact h p.1 ((replayed_isNewestPut_iff hp.1).mp hp)

/-! ### Two orders of two records -/

/-- A put of key 1 with sequence 1. -/
def samplePut : LogRecord := ⟨1, [], 1, false⟩

/-- A newer tombstone of key 1. -/
def sampleTombstone : LogRecord := ⟨1, [], 2, true⟩

/-- The put and then the tombstone: the newest record is shown. -/
theorem replay_settles_sample :
    ShowsNewest ((⟨MemIndex.fresh 3, 0⟩ : IndexLoader 3).replay
      [⟨0, 4096, [samplePut, sampleTombstone]⟩]).memIndex
      (fed [⟨0, 4096, [samplePut, sampleTombstone]⟩]) := by
  have hfed : fed [⟨0, 4096, [samplePut, sampleTombstone]⟩] =
      [samplePut, sampleTombstone] := rfl
  have hv : ValidRecords (fed [⟨0, 4096, [samplePut, sampleTombstone]⟩]) fun _ => 0 := by
    rw [hfed]
    exact ⟨by decide, by decide, by decide⟩
  refine (replay_settles_iff hv ⟨?_, fun s hs => ⟨trivial, fun _ _ => trivial⟩⟩).mpr ?_
  · exact (show (MemIndex.fresh 3).Orderly 1 ∧ ((MemIndex.fresh 3).upsert 1
      (rebuiltEntry 0 4096 ⟨0, entrySize 0, 1, 1, false⟩)).2 = true by decide +kernel)
  · rw [hfed]
    rintro p ⟨hp, ht, -⟩
    obtain rfl : p = samplePut := by
      rcases List.mem_cons.mp hp with rfl | hp
      · rfl
      · obtain rfl := List.mem_singleton.mp hp
        cases ht
    exact ⟨fun _ => ⟨sampleTombstone, by simp, rfl, rfl, by decide⟩,
      fun _ => ⟨samplePut, sampleTombstone, List.Sublist.refl _, rfl, rfl, rfl, rfl, rfl⟩⟩

/-- **A tombstone met before an older put is without effect**: in one order of the two
records the key is gone, in the other it is live with the sequence of the put. -/
theorem replay_depends_on_order :
    ((⟨MemIndex.fresh 3, 0⟩ : IndexLoader 3).replay
        [⟨0, 4096, [samplePut, sampleTombstone]⟩]).memIndex.findEntry 1 = none ∧
      (((⟨MemIndex.fresh 3, 0⟩ : IndexLoader 3).replay
        [⟨0, 4096, [sampleTombstone, samplePut]⟩]).memIndex.findEntry 1).map
          MemIndexEntry.sequence = some 1 := by
  have hv : ∀ r : LogRecord, r = samplePut ∨ r = sampleTombstone → r.value.length < 2 ^ 32 := by
    rintro r (rfl | rfl) <;> decide
  constructor
  · rw [IndexLoader.replay_memIndex _ fun r hr => hv r (by simpa [fed] using hr)]
    decide +kernel
  · rw [IndexLoader.replay_memIndex _ fun r hr => hv r (by simpa [fed, or_comm] using hr)]
    decide +kernel

end SpdkKv
