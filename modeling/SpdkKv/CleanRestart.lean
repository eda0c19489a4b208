import SpdkKv.DanglingBlobs

/-!
# Closing and Opening Again

`close` enters every file into the superblock and writes it; `open` makes the files again from
the mappings, and the next id from their number. Mappings are never removed, so the mapping of
a file whose blob was deleted, or whose allocation failed, stays; and one blob that cannot be
opened fails the whole `open`.

## Main results

* `PagesKnown.restart`: entries that a crash left behind on the page are for deleted blobs.
* `TableInv.step`: **what one step keeps** of the table of files.
* `clean_restart`: in every run without these events `open` after `close` succeeds and has the
  same files, with a larger next id.
* `restart_fails`: a compaction that is rolled back deletes its destination, and `open` after
  `close` fails.
-/

namespace SpdkKv

/-! ### Entries on pages -/

/-- The entry is on a page: the one in memory, the one on disk, or one in flight. -/
def AllocLogState.OnPage (s : AllocLogState) (e : AllocLogEntry) : Prop :=
  (∃ i, s.mgr.page i = e) ∨ (∃ i, s.disk i = e) ∨ ∃ w ∈ s.inFlight, ∃ i, w.2 i = e

/-- What a scan returns is on the page, valid, and newer than what it starts with; the last
entry is the newest. -/
theorem mem_scanEntries {page : AllocLogPage} {head : UInt32} {remaining i : ℕ}
    {lastSeq : UInt32} {e : AllocLogEntry}
    (he : e ∈ AllocLogManager.scanEntries page head remaining i lastSeq) :
    (∃ j, page j = e) ∧ e.Valid ∧ lastSeq < e.sequence ∧
      ∀ last, (AllocLogManager.scanEntries page head remaining i lastSeq).getLast? = some last →
        e.sequence ≤ last.sequence := by
  induction remaining generalizing i lastSeq e with
  | zero => cases he
  | succ remaining ih =>
      rw [AllocLogManager.scanEntries] at he ⊢
      split_ifs at he ⊢ with h1 h2 h3
      · cases he
      · cases he
      · cases he
      · have hnew : lastSeq < (page (allocLogSlot (head + UInt32.ofNat i))).sequence :=
          UInt32.not_le.mp h3
        rcases List.mem_cons.mp he with rfl | he
        · refine ⟨⟨_, rfl⟩, ⟨not_not.mp h1, not_not.mp h2⟩, hnew, fun last hlast => ?_⟩
          rw [List.getLast?_cons] at hlast
          cases hrest : (AllocLogManager.scanEntries page head remaining (i + 1)
              (page (allocLogSlot (head + UInt32.ofNat i))).sequence).getLast? with
          | none =>
              rw [hrest] at hlast
              rw [← Option.some.inj hlast]
              exact UInt32.le_refl _
          | some x =>
              rw [hrest, Option.getD_some] at hlast
              rw [← Option.some.inj hlast]
              have hmem : x ∈ AllocLogManager.scanEntries page head remaining (i + 1)
                  (page (allocLogSlot (head + UInt32.ofNat i))).sequence :=
                List.mem_of_getLast? hrest
              exact UInt32.le_of_lt (ih hmem).2.2.1
        · obtain ⟨hpage, hvalid, hlt, hle⟩ := ih he
          refine ⟨hpage, hvalid, UInt32.lt_trans hnew hlt, fun last hlast => hle last ?_⟩
          rw [List.getLast?_cons] at hlast
          obtain ⟨x, hx⟩ := Option.isSome_iff_exists.mp
            (List.getLast?_isSome.mpr (List.ne_nil_of_mem he))
          rw [hx] at hlast ⊢
          exact hlast

/-- What a restart from a position finds on a page, and the counter it goes on with. -/
theorem AllocLogPosition.mem_recover {p : AllocLogPosition} {disk : AllocLogPage}
    {e : AllocLogEntry} (he : e ∈ (p.recover disk).2) :
    (∃ j, disk j = e) ∧ e.Valid ∧ p.sequence < e.sequence ∧
      e.sequence ≤ (p.recover disk).1.sequence := by
  obtain ⟨hpage, hvalid, hlt, hle⟩ := mem_scanEntries he
  refine ⟨hpage, hvalid, hlt, ?_⟩
  obtain ⟨last, hlast⟩ := Option.isSome_iff_exists.mp
    (List.getLast?_isSome.mpr (List.ne_nil_of_mem he))
  rw [AllocLogPosition.recover, AllocLogManager.loadEntries]
  dsimp only
  rw [show (AllocLogManager.scanEntries disk (AllocLogManager.init p.head p.tail p.sequence).head
    kAllocLogCapacity 0 p.sequence).getLast? = some last from hlast]
  exact hle last hlast

theorem AllocLogPosition.le_recover_sequence (p : AllocLogPosition) (disk : AllocLogPage) :
    p.sequence ≤ (p.recover disk).1.sequence := by
  cases hfound : (p.recover disk).2 with
  | nil =>
      have : (p.recover disk).1.sequence = p.sequence := by
        rw [AllocLogPosition.recover, AllocLogManager.loadEntries] at hfound ⊢
        dsimp only at hfound ⊢
        rw [hfound]
        rfl
      rw [this]
      exact UInt32.le_refl _
  | cons e rest =>
      obtain ⟨-, -, hlt, hle⟩ := AllocLogPosition.mem_recover
        (hfound ▸ List.mem_cons_self : e ∈ (p.recover disk).2)
      exact UInt32.le_of_lt (UInt32.lt_of_lt_of_le hlt hle)

namespace AllocLogState

variable {s : AllocLogState} {e : AllocLogEntry}

/-- The entries on the pages after an entry was written. -/
theorem OnPage.of_writeEntry {a : Allocation} {x : AllocLogEntry} {mgr : AllocLogManager}
    (hw : s.mgr.writeEntry a = some (x, mgr))
    (he : OnPage { s with mgr := mgr, inFlight := s.inFlight ++ [(x, mgr.page)] } e) :
    s.OnPage e ∨ e = x := by
  obtain ⟨-, -, rfl⟩ := writeEntry_eq_some hw
  have hupdate : ∀ i, Function.update s.mgr.page (allocLogSlot s.mgr.tail) x i = e →
      s.OnPage e ∨ e = x := by
    intro i hi
    by_cases heq : i = allocLogSlot s.mgr.tail
    · rw [heq, Function.update_self] at hi
      exact .inr hi.symm
    · rw [Function.update_of_ne heq] at hi
      exact .inl (.inl ⟨i, hi⟩)
  rcases he with ⟨i, hi⟩ | hdisk | ⟨w, hw, i, hi⟩
  · exact hupdate i hi
  · exact .inl (.inr (.inl hdisk))
  · rcases List.mem_append.mp hw with hw | hw
    · exact .inl (.inr (.inr ⟨w, hw, i, hi⟩))
    · rw [List.mem_singleton.mp hw] at hi
      exact hupdate i hi

theorem OnPage.of_pageWritten {i : ℕ} {late : Bool} {w : AllocLogEntry × AllocLogPage}
    {completed : List AllocLogEntry} (hw : s.inFlight[i]? = some w)
    (he : OnPage { s with
      disk := if late then s.mgr.page else w.2
      inFlight := s.inFlight.eraseIdx i
      completed := completed } e) : s.OnPage e := by
  rcases he with hpage | ⟨j, hj⟩ | ⟨x, hx, hj⟩
  · exact .inl hpage
  · cases late with
    | true => exact .inl ⟨j, hj⟩
    | false => exact .inr (.inr ⟨w, List.mem_of_getElem? hw, j, hj⟩)
  · exact .inr (.inr ⟨x, List.eraseIdx_subset hx, hj⟩)

theorem OnPage.of_pageFailed {i : ℕ} {failed : List AllocLogEntry}
    (he : OnPage { s with inFlight := s.inFlight.eraseIdx i, failed := failed } e) :
    s.OnPage e := by
  rcases he with hpage | hdisk | ⟨x, hx, hj⟩
  · exact .inl hpage
  · exact .inr (.inl hdisk)
  · exact .inr (.inr ⟨x, List.eraseIdx_subset hx, hj⟩)

theorem OnPage.of_restart {p : AllocLogPosition}
    (he : OnPage { s with mgr := (p.recover s.disk).1, inFlight := [], failed := [] } e) :
    ∃ i, s.disk i = e := by
  rcases he with hpage | hdisk | ⟨x, hx, -⟩
  · exact hpage
  · exact hdisk
  · cases hx

end AllocLogState

/-! ### The invariants -/

/-- What is known of the pages: an entry whose blob exists is not newer than the counter, nor
than the position of a superblock that maps the blob; and a blob has one entry. -/
structure PagesKnown (log : AllocLogState) (blobs : List ℕ)
    (saved : List (SuperblockFiles × AllocLogPosition)) (nextBlobId : ℕ) : Prop where
  le : ∀ e, log.OnPage e → e.Valid → e.blobId.toNat ∈ blobs → e.sequence ≤ log.mgr.sequence
  mapped : ∀ w ∈ saved, ∀ e, log.OnPage e → e.Valid → e.blobId.toNat ∈ blobs →
    e.blobId.toNat ∈ w.1.blobIds → e.sequence ≤ w.2.sequence
  unique : ∀ e e', log.OnPage e → log.OnPage e' → e.Valid → e'.Valid →
    e.blobId = e'.blobId → e.sequence = e'.sequence
  fresh : ∀ e, log.OnPage e → e.Valid → e.blobId.toNat < nextBlobId
  blobs_lt : ∀ b ∈ blobs, b < nextBlobId
  saved_lt : ∀ w ∈ saved, ∀ b ∈ w.1.blobIds, b < nextBlobId

namespace PagesKnown

variable {log : AllocLogState} {blobs : List ℕ}
  {saved : List (SuperblockFiles × AllocLogPosition)} {next : ℕ}

/-- Nothing new is on the pages, no blob is new, and no superblock is. -/
theorem mono (h : PagesKnown log blobs saved next) {log' : AllocLogState} {blobs' : List ℕ}
    {saved' : List (SuperblockFiles × AllocLogPosition)}
    (hpage : ∀ e, log'.OnPage e → log.OnPage e) (hmgr : log'.mgr.sequence = log.mgr.sequence)
    (hblobs : blobs' ⊆ blobs) (hsaved : saved' ⊆ saved) :
    PagesKnown log' blobs' saved' next where
  le := fun e he hv hb => hmgr ▸ h.le e (hpage e he) hv (hblobs hb)
  mapped := fun w hw e he hv hb => h.mapped w (hsaved hw) e (hpage e he) hv (hblobs hb)
  unique := fun e e' he he' => h.unique e e' (hpage e he) (hpage e' he')
  fresh := fun e he => h.fresh e (hpage e he)
  blobs_lt := fun b hb => h.blobs_lt b (hblobs hb)
  saved_lt := fun w hw => h.saved_lt w (hsaved hw)

/-- A blob is created. -/
theorem addBlob (h : PagesKnown log blobs saved next) :
    PagesKnown log (blobs ++ [next]) saved (next + 1) := by
  have hold : ∀ e, log.OnPage e → e.Valid → e.blobId.toNat ∈ blobs ++ [next] →
      e.blobId.toNat ∈ blobs := by
    intro e he hv hb
    refine (List.mem_append.mp hb).resolve_right fun heq => ?_
    exact (h.fresh e he hv).ne (List.mem_singleton.mp heq)
  refine ⟨fun e he hv hb => h.le e he hv (hold e he hv hb),
    fun w hw e he hv hb => h.mapped w hw e he hv (hold e he hv hb), h.unique,
    fun e he hv => Nat.lt_succ_of_lt (h.fresh e he hv), fun b hb => ?_,
    fun w hw b hb => Nat.lt_succ_of_lt (h.saved_lt w hw b hb)⟩
  rcases List.mem_append.mp hb with hb | hb
  · exact Nat.lt_succ_of_lt (h.blobs_lt b hb)
  · rw [List.mem_singleton.mp hb]
    exact Nat.lt_succ_self _

/-- A blob is created and its entry written. -/
theorem writeEntry (h : PagesKnown log blobs saved next) {a : Allocation} {x : AllocLogEntry}
    {mgr : AllocLogManager} (hwrite : log.mgr.writeEntry a = some (x, mgr))
    (hwrap : log.mgr.sequence.toNat + 1 < 2 ^ 32) (hx : x.blobId.toNat = next) :
    PagesKnown { log with mgr := mgr, inFlight := log.inFlight ++ [(x, mgr.page)] }
      (blobs ++ [next]) saved (next + 1) := by
  have hadd := h.addBlob
  have hcase := fun e he => AllocLogState.OnPage.of_writeEntry (e := e) hwrite he
  obtain ⟨-, hbuild, hmgr⟩ := writeEntry_eq_some hwrite
  have hseq : mgr.sequence = log.mgr.sequence + 1 := by rw [hmgr]
  have hxseq : x.sequence = log.mgr.sequence + 1 := by
    rw [hbuild, AllocLogEntry.build_sequence]
  have hne : ∀ e, log.OnPage e → e.Valid → e.blobId ≠ x.blobId := by
    intro e he hv heq
    have := h.fresh e he hv
    rw [heq, hx] at this
    exact Nat.lt_irrefl _ this
  refine ⟨fun e he hv hb => ?_, fun w hw e he hv hb hmem => ?_,
    fun e e' he he' hv hv' heq => ?_, fun e he hv => ?_, hadd.blobs_lt, hadd.saved_lt⟩
  · rcases hcase e he with he | rfl
    · have hle := UInt32.le_iff_toNat_le.mp (hadd.le e he hv hb)
      dsimp only
      rw [hseq, UInt32.le_iff_toNat_le, toNat_add_one hwrap]
      omega
    · dsimp only
      rw [hseq, hxseq]
      exact UInt32.le_refl _
  · rcases hcase e he with he | rfl
    · exact hadd.mapped w hw e he hv hb hmem
    · rw [hx] at hmem
      exact absurd (h.saved_lt w hw _ hmem) (Nat.lt_irrefl _)
  · rcases hcase e he with hold | hex
    · rcases hcase e' he' with hold' | hex'
      · exact h.unique e e' hold hold' hv hv' heq
      · exact absurd (heq.trans (congrArg _ hex')) (hne e hold hv)
    · rcases hcase e' he' with hold' | hex'
      · exact absurd (heq.symm.trans (congrArg _ hex)) (hne e' hold' hv')
      · rw [hex, hex']
  · rcases hcase e he with he | rfl
    · exact hadd.fresh e he hv
    · rw [hx]
      exact Nat.lt_succ_self _

/-- A superblock is filled in with the position of the log. -/
theorem save (h : PagesKnown log blobs saved next) {table : SuperblockFiles}
    {p : AllocLogPosition} (hp : p.sequence = log.mgr.sequence)
    (htable : ∀ b ∈ table.blobIds, b < next) :
    PagesKnown log blobs ((table, p) :: saved) next := by
  refine ⟨h.le, fun w hw e he hv hb hmem => ?_, h.unique, h.fresh, h.blobs_lt, fun w hw => ?_⟩
  · rcases List.mem_cons.mp hw with rfl | hw
    · rw [hp]
      exact h.le e he hv hb
    · exact h.mapped w hw e he hv hb hmem
  · rcases List.mem_cons.mp hw with rfl | hw
    · exact htable
    · exact h.saved_lt w hw

/-- **After a crash**: of the blobs with an entry on the page only those are left that are
mapped on disk or that were found, so their entries are not newer than the counter. -/
theorem restart (h : PagesKnown log blobs saved next) {table : SuperblockFiles}
    {p : AllocLogPosition} (hp : (table, p) ∈ saved) {blobs' : List ℕ} (hblobs : blobs' ⊆ blobs)
    (hkept : ∀ b ∈ blobs', b ∈ table.blobIds ∨
      ∃ x ∈ (p.recover log.disk).2, x.blobId.toNat = b) :
    PagesKnown { log with mgr := (p.recover log.disk).1, inFlight := [], failed := [] } blobs'
      [(table, p)] next := by
  have hpage := fun e he => AllocLogState.OnPage.of_restart (s := log) (p := p) (e := e) he
  have hold : ∀ e, (∃ i, log.disk i = e) → log.OnPage e := fun e he => .inr (.inl he)
  have hsaved : ∀ w ∈ [(table, p)], w ∈ saved := by
    intro w hw
    rwa [List.mem_singleton.mp hw]
  refine ⟨fun e he hv hb => ?_, fun w hw e he hv hb hmem => ?_, fun e e' he he' => ?_,
    fun e he => h.fresh e (hold e (hpage e he)), fun b hb => h.blobs_lt b (hblobs hb),
    fun w hw => h.saved_lt w (hsaved w hw)⟩
  · have he := hold e (hpage e he)
    rcases hkept _ hb with hmem | ⟨x, hx, heq⟩
    · exact UInt32.le_trans (h.mapped _ hp e he hv (hblobs hb) hmem)
        (p.le_recover_sequence log.disk)
    · obtain ⟨hxp, hxv, -, hle⟩ := AllocLogPosition.mem_recover hx
      rw [h.unique e x he (hold x hxp) hv hxv (UInt64.toNat_inj.mp heq.symm)]
      exact hle
  · exact h.mapped w (hsaved w hw) e (hold e (hpage e he)) hv (hblobs hb) hmem
  · exact h.unique e e' (hold e (hpage e he)) (hold e' (hpage e' he'))

end PagesKnown

/-! ### Ids -/

/-- The ids of the files that `open` found are the numbers below their number, in any order;
those of newer files follow, and there is one for every allocation under way. The counter has
16 bits. -/
def IdsInOrder (ids : List ℕ) (next pendingCount : ℕ) : Prop :=
  ∃ (old : List ℕ) (k : ℕ), old ≠ [] ∧ old.Perm (List.range old.length) ∧
    ids = old ++ (List.range' old.length k).map (· % 2 ^ 16) ∧ pendingCount ≤ k ∧
    next = ids.length % 2 ^ 16

namespace IdsInOrder

variable {ids : List ℕ} {next pendingCount : ℕ}

theorem mono (h : IdsInOrder ids next pendingCount) {pendingCount' : ℕ}
    (hle : pendingCount' ≤ pendingCount) : IdsInOrder ids next pendingCount' := by
  obtain ⟨old, k, hne, hold, hids, hk, hnext⟩ := h
  exact ⟨old, k, hne, hold, hids, hle.trans hk, hnext⟩

theorem push (h : IdsInOrder ids next pendingCount) :
    IdsInOrder (ids ++ [next]) ((next + 1) % 2 ^ 16) (pendingCount + 1) := by
  obtain ⟨old, k, hne, hold, rfl, hk, rfl⟩ := h
  refine ⟨old, k + 1, hne, hold, ?_, Nat.succ_le_succ hk, ?_⟩
  · rw [List.range'_concat, List.map_append, List.append_assoc]
    simp
  · simp only [List.length_append, List.length_map, List.length_range', List.length_singleton]
    omega

theorem pop (h : IdsInOrder ids next (pendingCount + 1)) :
    IdsInOrder ids.dropLast ((next + (2 ^ 16 - 1)) % 2 ^ 16) pendingCount := by
  obtain ⟨old, k, hne, hold, rfl, hk, rfl⟩ := h
  obtain ⟨k, rfl⟩ : ∃ j, k = j + 1 := ⟨k - 1, by omega⟩
  refine ⟨old, k, hne, hold, ?_, Nat.succ_le_succ_iff.mp hk, ?_⟩
  · rw [List.range'_concat, List.map_append, List.map_singleton, ← List.append_assoc,
      List.dropLast_concat]
  · rw [List.length_dropLast]
    simp
    omega

/-- With room in the superblock the counter has not run over. -/
theorem perm_range (h : IdsInOrder ids next pendingCount) (hlen : ids.length ≤ kMaxFileCount) :
    ids.Perm (List.range ids.length) := by
  obtain ⟨old, k, -, hold, rfl, -, -⟩ := h
  rw [List.length_append, List.length_map, List.length_range'] at hlen ⊢
  have hmap : (List.range' old.length k).map (· % 2 ^ 16) = List.range' old.length k := by
    refine (List.map_congr_left fun x hx => ?_).trans (List.map_id _)
    refine Nat.mod_eq_of_lt ?_
    have := (List.mem_range'_1.mp hx).2
    rw [kMaxFileCount] at hlen
    omega
  have happend : List.range (old.length + k) = List.range old.length ++
      List.range' old.length k := by
    rw [List.range_eq_range', List.range_eq_range', ← List.range'_append_1, Nat.zero_add]
  rw [hmap, happend]
  exact hold.append_right _

/-- There is a file. -/
theorem ne_nil (h : IdsInOrder ids next pendingCount) : ids ≠ [] := by
  obtain ⟨old, k, hne, -, rfl, -, -⟩ := h
  exact fun heq => hne (List.append_eq_nil_iff.mp heq).1

/-- Distinct ids below their number. -/
theorem of_nodup (hne : ids ≠ []) (hnodup : ids.Nodup) (hlt : ∀ x ∈ ids, x < ids.length)
    (hlen : ids.length ≤ kMaxFileCount) : IdsInOrder ids ids.length 0 := by
  refine ⟨ids, 0, hne, ?_, by simp, le_rfl, ?_⟩
  · refine (List.Nodup.subperm hnodup fun x hx => List.mem_range.mpr (hlt x hx)).perm_of_length_le ?_
    rw [List.length_range]
  · rw [Nat.mod_eq_of_lt]
    exact lt_of_le_of_lt hlen (by decide)

end IdsInOrder

/-! ### The table of files -/

namespace FileLifecycle

variable {n : ℕ} {s : FileLifecycle n}

/-- The invariant of a run. -/
structure TableInv (s : FileLifecycle n) : Prop where
  pages : PagesKnown s.log s.blobs s.saved s.space.nextBlobId
  next_pos : 0 < s.space.nextBlobId
  file_lt : ∀ f ∈ s.space.files, f.blobId < s.space.nextBlobId
  superblock_lt : ∀ b ∈ s.space.superblock.blobIds, b < s.space.nextBlobId
  fits : s.space.superblock.Fits
  saved_fits : ∀ w ∈ s.saved, w.1.Fits
  nodup : s.space.superblock.fileIds.Nodup
  exists_blob : ∀ f ∈ s.space.files, f.blobId = 0 ∨ f.blobId ∈ s.blobs
  ids : IdsInOrder s.space.fileIds s.space.nextFileId s.pending.length

/-- **When a step keeps the table of files**: no blob is deleted and the counter of the log
does not run over; `open` finds distinct ids below their number; and at `close` every file has
a blob, there are not too many, and only files are mapped. -/
def KeepsTable (s : FileLifecycle n) : LifecycleEvent n → Prop
  | .blobAllocated _ true _ => s.log.mgr.sequence.toNat + 1 < 2 ^ 32
  | .discard _ deleted => deleted = false
  | .close _ _ _ => (∀ f ∈ s.space.files, f.blobId ≠ 0) ∧
      s.space.files.length ≤ kMaxFileCount ∧
      ∀ id ∈ s.space.superblock.fileIds, id ∈ s.space.fileIds
  | .reopen _ => s.loaded.fileIds.Nodup ∧
      ∀ id ∈ s.loaded.fileIds, id < s.loaded.fileMappings.length
  | _ => True

instance : ∀ (s : FileLifecycle n) (ev : LifecycleEvent n), Decidable (s.KeepsTable ev)
  | s, .blobAllocated _ true _ =>
      inferInstanceAs (Decidable (s.log.mgr.sequence.toNat + 1 < 2 ^ 32))
  | _, .discard _ deleted => inferInstanceAs (Decidable (deleted = false))
  | s, .close _ _ _ => inferInstanceAs (Decidable ((∀ f ∈ s.space.files, f.blobId ≠ 0) ∧
      s.space.files.length ≤ kMaxFileCount ∧
      ∀ id ∈ s.space.superblock.fileIds, id ∈ s.space.fileIds))
  | s, .reopen _ => inferInstanceAs (Decidable (s.loaded.fileIds.Nodup ∧
      ∀ id ∈ s.loaded.fileIds, id < s.loaded.fileMappings.length))
  | _, .blobAllocated _ false _ | _, .allocate _ | _, .entryWritten _ _ _
  | _, .headerWritten _ _ | _, .write _ _ | _, .completePut _ _ | _, .completeDelete _
  | _, .mark _ _ | _, .migrate _ _ | _, .updateIndex _ _ | _, .revertIndex _
  | _, .updateSuperblock _ _ _ | _, .superblockWritten _ => .isTrue trivial

namespace TableInv

/-- Steps that leave the pages, the superblocks and the blobs alone: files may change, but
they keep their ids and blobs; fewer allocations may be under way. -/
theorem frame (h : s.TableInv) {s' : FileLifecycle n}
    (hpages : PagesKnown s'.log s'.blobs s'.saved s'.space.nextBlobId)
    (hnext : s'.space.nextBlobId = s.space.nextBlobId)
    (hsuperblock : s'.space.superblock = s.space.superblock) (hsaved : s'.saved ⊆ s.saved)
    (hblobs : s.blobs ⊆ s'.blobs) (hids : s'.space.fileIds = s.space.fileIds)
    (hfileId : s'.space.nextFileId = s.space.nextFileId)
    (hpending : s'.pending.length ≤ s.pending.length)
    (hfiles : ∀ f ∈ s'.space.files, ∃ g ∈ s.space.files, f.blobId = g.blobId) :
    s'.TableInv := by
  refine ⟨hpages, hnext ▸ h.next_pos, fun f hf => ?_, hnext ▸ hsuperblock ▸ h.superblock_lt,
    hsuperblock ▸ h.fits, fun w hw => h.saved_fits w (hsaved hw), hsuperblock ▸ h.nodup,
    fun f hf => ?_, ?_⟩
  · obtain ⟨g, hg, heq⟩ := hfiles f hf
    rw [heq, hnext]
    exact h.file_lt g hg
  · obtain ⟨g, hg, heq⟩ := hfiles f hf
    rw [heq]
    exact (h.exists_blob g hg).imp_right fun hb => hblobs hb
  · rw [hids, hfileId]
    exact h.ids.mono hpending

/-- A change of a file that keeps its id and its blob. -/
theorem modifyFile (h : s.TableInv) (i : ℕ) {f : FileInfo → FileInfo}
    (hblob : ∀ file, (f file).blobId = file.blobId)
    (hid : ∀ file, (f file).fileId = file.fileId) :
    TableInv { s with space := s.space.modifyFile i f } := by
  refine h.frame h.pages rfl rfl (List.Subset.refl _) (List.Subset.refl _)
    (s.space.fileIds_modifyFile i hid) rfl le_rfl fun g hg => ?_
  rcases FileSpace.mem_modifyFile hg with hg | ⟨hi, rfl⟩
  · exact ⟨g, hg, rfl⟩
  · exact ⟨_, FileSpace.fileAt_mem hi, hblob _⟩

/-- The last file is removed, with an allocation that was under way. -/
theorem dropNewFile (h : s.TableInv) {creating logging opening : List FileAllocation}
    (hlen : s.pending.length = creating.length + logging.length + opening.length + 1) :
    TableInv { s with
      space := s.space.dropNewFile
      creating := creating
      logging := logging
      opening := opening } := by
  have hsub : ∀ f ∈ s.space.dropNewFile.files, f ∈ s.space.files :=
    fun f hf => List.dropLast_subset _ hf
  refine ⟨h.pages, h.next_pos, fun f hf => h.file_lt f (hsub f hf), h.superblock_lt, h.fits,
    h.saved_fits, h.nodup, fun f hf => h.exists_blob f (hsub f hf), ?_⟩
  have hids := h.ids
  rw [hlen] at hids
  dsimp only
  rw [FileSpace.fileIds_dropNewFile, FileLifecycle.pending, List.length_append,
    List.length_append]
  exact hids.pop

/-- A mapping is overwritten or added. -/
theorem updateFileMapping (h : s.TableInv) (i activeFileId : ℕ) : TableInv { s with
    space := { s.space.updateFileMapping (s.space.fileAt i) with
      activeFileId := activeFileId } } := by
  have hlt : (s.space.fileAt i).blobId < s.space.nextBlobId := by
    rcases Nat.lt_or_ge i s.space.files.length with hi | hi
    · exact h.file_lt _ (FileSpace.fileAt_mem hi)
    · rw [FileSpace.fileAt, List.getElem?_eq_none hi]
      exact h.next_pos
  refine ⟨h.pages, h.next_pos, h.file_lt, fun b hb => ?_, h.fits.updateFileMapping _,
    h.saved_fits, SuperblockFiles.nodup_fileIds_updateFileMapping h.nodup _, h.exists_blob, h.ids⟩
  obtain ⟨m, hm, rfl⟩ := List.mem_map.mp hb
  rcases SuperblockFiles.mem_updateFileMapping hm with hm | rfl
  · exact h.superblock_lt _ (List.mem_map_of_mem hm)
  · exact hlt

theorem endAllocation_true (h : s.TableInv) (a : FileAllocation) :
    (s.endAllocation a true).TableInv := by
  rw [FileLifecycle.endAllocation, FileSpace.endAllocation, if_pos rfl]
  cases a.kind with
  | async => exact h.updateFileMapping _ _
  | foreground => exact h.updateFileMapping _ _
  | compaction => exact h.updateFileMapping _ s.space.activeFileId

/-- A superblock is filled in. -/
theorem updatedSuperblock (h : s.TableInv) (position : Option (ℕ × ℕ))
    (dataBytes garbageBytes : ℕ) :
    (∀ b ∈ (s.space.updatedSuperblock position dataBytes garbageBytes).blobIds,
      b < s.space.nextBlobId) ∧
      (s.space.updatedSuperblock position dataBytes garbageBytes).Fits ∧
      (s.space.updatedSuperblock position dataBytes garbageBytes).fileIds.Nodup := by
  refine ⟨fun b hb => ?_, h.fits.updateAll s.space.files,
    SuperblockFiles.nodup_fileIds_updateAll h.nodup s.space.files⟩
  obtain ⟨m, hm, rfl⟩ := List.mem_map.mp hb
  rcases SuperblockFiles.mem_updateAll hm with hm | ⟨f, hf, rfl⟩
  · exact h.superblock_lt _ (List.mem_map_of_mem hm)
  · exact h.file_lt f hf

/-- A file gets a new blob. -/
theorem assignBlob (h : s.TableInv) (place : ℕ) {creating logging : List FileAllocation}
    {mgr : AllocLogManager} {inFlight : List (AllocLogEntry × AllocLogPage)}
    (hpages : PagesKnown { s.log with mgr := mgr, inFlight := inFlight }
      (s.blobs ++ [s.space.nextBlobId]) s.saved (s.space.nextBlobId + 1))
    (hlen : creating.length + logging.length ≤ s.creating.length + s.logging.length) :
    TableInv { s with
      space := s.space.assignBlob place
      blobs := s.blobs ++ [s.space.nextBlobId]
      log := { s.log with mgr := mgr, inFlight := inFlight }
      creating := creating
      logging := logging } := by
  have hmem : ∀ f ∈ (s.space.assignBlob place).files, f ∈ s.space.files ∨
      f.blobId = s.space.nextBlobId := by
    intro f hf
    rcases FileSpace.mem_modifyFile (show f ∈ (s.space.modifyFile place _).files from hf) with
      hf | ⟨-, rfl⟩
    · exact .inl hf
    · exact .inr rfl
  refine ⟨hpages, Nat.succ_pos _, fun f hf => ?_, fun b hb => Nat.lt_succ_of_lt (h.superblock_lt b hb),
    h.fits, h.saved_fits, h.nodup, fun f hf => ?_, ?_⟩
  · rcases hmem f hf with hf | heq
    · exact Nat.lt_succ_of_lt (h.file_lt f hf)
    · exact lt_of_eq_of_lt heq (Nat.lt_succ_self _)
  · rcases hmem f hf with hf | heq
    · exact (h.exists_blob f hf).imp_right fun hb => List.mem_append_left _ hb
    · exact .inr (heq ▸ List.mem_append_right _ (List.mem_singleton.mpr rfl))
  · have hids : (s.space.assignBlob place).fileIds = s.space.fileIds :=
      s.space.fileIds_modifyFile place fun _ => rfl
    dsimp only
    rw [hids]
    refine h.ids.mono ?_
    simp only [FileLifecycle.pending, List.length_append]
    omega

/-- The blob of an allocation was created. -/
theorem onBlobAllocated (h : s.TableInv) {i : ℕ} {createTime : UInt64}
    (hkeeps : s.KeepsTable (.blobAllocated i true createTime)) {a : FileAllocation}
    (ha : s.creating[i]? = some a) (hnext : s.space.nextBlobId < 2 ^ 64) :
    (onBlobAllocated { s with creating := s.creating.eraseIdx i } a createTime).TableInv := by
  have hi : i < s.creating.length := (List.getElem?_eq_some_iff.mp ha).1
  have hlen : (s.creating.eraseIdx i).length + 1 = s.creating.length := by
    rw [List.length_eraseIdx_of_lt hi]
    omega
  rw [FileLifecycle.onBlobAllocated]
  dsimp only
  split
  · have hblob : TableInv { s with
        space := s.space.assignBlob a.place
        blobs := s.blobs ++ [s.space.nextBlobId] } := h.assignBlob a.place h.pages.addBlob le_rfl
    refine hblob.dropNewFile ?_
    simp only [FileLifecycle.pending, List.length_append]
    omega
  · next e mgr hw =>
      have hid : e.blobId.toNat = s.space.nextBlobId := by
        rw [(writeEntry_eq_some hw).2.1]
        exact UInt64.toNat_ofNat_of_lt' hnext
      refine h.assignBlob a.place (h.pages.writeEntry hw hkeeps hid) ?_
      rw [List.length_append, List.length_singleton]
      omega

/-- The page write of an entry ends. -/
theorem onEntryWritten (h : s.TableInv) {i : ℕ} (ok late : Bool)
    {w : AllocLogEntry × AllocLogPage} {a : FileAllocation} (hw : s.log.inFlight[i]? = some w)
    (ha : s.logging[i]? = some a) : (s.onEntryWritten i w a ok late).TableInv := by
  have hi : i < s.logging.length := (List.getElem?_eq_some_iff.mp ha).1
  have hlen : (s.logging.eraseIdx i).length + 1 = s.logging.length := by
    rw [List.length_eraseIdx_of_lt hi]
    omega
  cases ok with
  | true =>
      refine h.frame (h.pages.mono (fun e he => he.of_pageWritten hw) rfl (List.Subset.refl _)
        (List.Subset.refl _)) rfl rfl (List.Subset.refl _) (List.Subset.refl _) rfl rfl ?_
        fun f hf => ⟨f, hf, rfl⟩
      simp only [FileLifecycle.pending, FileLifecycle.onEntryWritten, if_pos, List.length_append,
        List.length_singleton]
      omega
  | false =>
      have hlog : PagesKnown { s.log with
          inFlight := s.log.inFlight.eraseIdx i
          failed := s.log.failed ++ [w.1] } s.blobs s.saved s.space.nextBlobId :=
        h.pages.mono (fun e he => he.of_pageFailed) rfl (List.Subset.refl _)
          (List.Subset.refl _)
      have hframe : TableInv { s with log := { s.log with
          inFlight := s.log.inFlight.eraseIdx i
          failed := s.log.failed ++ [w.1] } } :=
        h.frame hlog rfl rfl (List.Subset.refl _) (List.Subset.refl _) rfl rfl le_rfl
          fun f hf => ⟨f, hf, rfl⟩
      refine hframe.dropNewFile ?_
      simp only [FileLifecycle.pending, List.length_append]
      omega

/-- The opening of a file ends. -/
theorem onHeaderWritten (h : s.TableInv) {i : ℕ} (ok : Bool) {a : FileAllocation}
    (ha : s.opening[i]? = some a) : (s.onHeaderWritten i a ok).TableInv := by
  have hi : i < s.opening.length := (List.getElem?_eq_some_iff.mp ha).1
  have hlen : (s.opening.eraseIdx i).length + 1 = s.opening.length := by
    rw [List.length_eraseIdx_of_lt hi]
    omega
  cases ok with
  | true =>
      refine endAllocation_true ?_ a
      refine h.frame h.pages rfl rfl (List.Subset.refl _) (List.Subset.refl _)
        (s.space.fileIds_modifyFile a.place fun _ => rfl) rfl ?_ fun f hf => ?_
      · simp only [FileLifecycle.pending, List.length_append]
        omega
      · rcases FileSpace.mem_modifyFile (show f ∈ (s.space.modifyFile a.place _).files from hf)
          with hf | ⟨hlt, rfl⟩
        · exact ⟨f, hf, rfl⟩
        · exact ⟨_, FileSpace.fileAt_mem hlt, rfl⟩
  | false =>
      refine h.dropNewFile ?_
      simp only [FileLifecycle.pending, List.length_append]
      omega

/-- The engine is opened. -/
theorem reopened (h : s.TableInv) {recovered : MemIndex n} {p : AllocLogPosition}
    (hkeeps : s.KeepsTable (.reopen recovered)) (hp : s.log.superblock = some p)
    (hcan : s.canRebuild = true) (hne : s.loaded.fileMappings ≠ []) :
    (s.reopened recovered p).TableInv := by
  have hspace : (s.reopened recovered p).space = _ := FileSpace.reopened_eq _ _ hne
  have hfits : s.loaded.Fits := (h.saved_fits (s.persisted, p)
    (List.mem_append_left _ (Option.mem_toList.mpr (Option.mem_map_of_mem _ hp)))).addLogged _
  have hlt : ∀ b ∈ s.loaded.blobIds, b ∈ s.blobs ∧ b ∉ s.deletedByOpen := by
    intro b hb
    refine ⟨mem_blobs_of_canRebuild hcan hb, ?_⟩
    rw [deletedByOpen, if_pos hcan, List.mem_append, not_or]
    have hrem := of_decide_eq_true (List.all_eq_true.mp hcan b hb)
    refine ⟨of_decide_eq_true (List.mem_filter.mp hrem).2, fun hd => ?_⟩
    exact of_decide_eq_true (List.mem_filter.mp hd).2 hb
  have hsaved : (s.reopened recovered p).saved = [(s.persisted, p)] := by
    rw [saved]
    change (s.log.superblock.map _).toList ++ [] = _
    rw [hp]
    rfl
  have hblobs : (s.reopened recovered p).blobs ⊆ s.blobs := fun b hb => (List.mem_filter.mp hb).1
  have hmem : (s.persisted, p) ∈ s.saved :=
    List.mem_append_left _ (Option.mem_toList.mpr (Option.mem_map_of_mem _ hp))
  have hpages := h.pages.restart hmem hblobs fun b hb => by
    obtain ⟨hb, hkept⟩ := List.mem_filter.mp hb
    rcases mem_blobIds_loaded (mem_loaded_of_not_deleted hcan hb (of_decide_eq_true hkept)) with
      hin | ⟨e, he, heq, -, -⟩
    · exact .inl hin
    · rw [foundEntries, hp] at he
      exact .inr ⟨e, he, heq⟩
  have hfile : ∀ f ∈ s.loaded.fileMappings.map FileMapping.toFile,
      f.blobId ∈ s.loaded.blobIds := by
    intro f hf
    obtain ⟨m, hm, rfl⟩ := List.mem_map.mp hf
    exact List.mem_map_of_mem hm
  refine ⟨?_, ?_, ?_, ?_, ?_, ?_, ?_, ?_, ?_⟩
  · rw [hsaved, hspace]
    exact hpages
  · rw [hspace]
    exact h.next_pos
  · rw [hspace]
    exact fun f hf => h.pages.blobs_lt _ (hlt _ (hfile f hf)).1
  · rw [hspace]
    exact fun b hb => h.pages.blobs_lt _ (hlt b hb).1
  · rw [hspace]
    exact hfits
  · rw [hsaved]
    exact fun w hw => h.saved_fits w (List.mem_singleton.mp hw ▸ hmem)
  · rw [hspace]
    exact hkeeps.1
  · rw [hspace]
    refine fun f hf => .inr (List.mem_filter.mpr ⟨(hlt _ (hfile f hf)).1, ?_⟩)
    exact decide_eq_true (hlt _ (hfile f hf)).2
  · have hids : (s.reopened recovered p).space.fileIds = s.loaded.fileIds := by
      rw [FileSpace.fileIds, hspace]
      dsimp only
      rw [List.map_map]
      rfl
    have hlen : s.loaded.fileIds.length = s.loaded.fileMappings.length := List.length_map ..
    rw [hids, hspace]
    refine hlen ▸ IdsInOrder.of_nodup (fun heq => hne ?_) hkeeps.1 (fun x hx => ?_) ?_
    · exact List.map_eq_nil_iff.mp heq
    · rw [hlen]
      exact hkeeps.2 x hx
    · rw [hlen]
      exact hfits

/-- A checkpoint fills in the superblock and empties the log. -/
theorem updateSuperblock (h : s.TableInv) (position : Option (ℕ × ℕ))
    (dataBytes garbageBytes : ℕ) : TableInv { s with
      space := { s.space with
        superblock := s.space.updatedSuperblock position dataBytes garbageBytes }
      log := { s.log with mgr := s.log.mgr.reclaim }
      writing := some (s.space.updatedSuperblock position dataBytes garbageBytes,
        s.log.mgr.reclaim.position) } := by
  obtain ⟨hlt, hfits, hnodup⟩ := h.updatedSuperblock position dataBytes garbageBytes
  have hsave := h.pages.save (p := s.log.mgr.reclaim.position) rfl hlt
  have hsub : ∀ w, w ∈ saved { s with
      space := { s.space with
        superblock := s.space.updatedSuperblock position dataBytes garbageBytes }
      log := { s.log with mgr := s.log.mgr.reclaim }
      writing := some (s.space.updatedSuperblock position dataBytes garbageBytes,
        s.log.mgr.reclaim.position) } →
      w ∈ (s.space.updatedSuperblock position dataBytes garbageBytes,
        s.log.mgr.reclaim.position) :: s.saved := by
    intro w hw
    rcases List.mem_append.mp hw with hw | hw
    · exact List.mem_cons_of_mem _ (List.mem_append_left _ hw)
    · rw [List.mem_singleton.mp hw]
      exact List.mem_cons_self
  refine ⟨hsave.mono (fun e he => he) rfl (List.Subset.refl _) hsub, h.next_pos, h.file_lt, hlt,
    hfits, fun w hw => ?_, hnodup, h.exists_blob, h.ids⟩
  rcases List.mem_cons.mp (hsub w hw) with rfl | hw
  · exact hfits
  · exact h.saved_fits w hw

/-- The superblock that was being written is on disk, or was not written. -/
theorem superblockWritten (h : s.TableInv) {w : SuperblockFiles × AllocLogPosition}
    (hw : s.writing = some w) (ok : Bool) : TableInv (if ok then { s with
      writing := none
      persisted := w.1
      log := { s.log with superblock := some w.2 } } else { s with writing := none }) := by
  have hmem : w ∈ s.saved := List.mem_append_right _ (Option.mem_toList.mpr hw)
  cases ok with
  | true =>
      rw [if_pos rfl]
      have hsaved : saved { s with
          writing := none
          persisted := w.1
          log := { s.log with superblock := some w.2 } } ⊆ s.saved := by
        intro x hx
        rcases List.mem_append.mp hx with hx | hx
        · rw [List.mem_singleton.mp hx]
          exact hmem
        · cases hx
      exact h.frame (h.pages.mono (fun e he => he) rfl (List.Subset.refl _) hsaved) rfl rfl hsaved
        (List.Subset.refl _) rfl rfl le_rfl fun f hf => ⟨f, hf, rfl⟩
  | false =>
      rw [if_neg Bool.false_ne_true]
      have hsaved : saved { s with writing := none } ⊆ s.saved := by
        intro x hx
        rcases List.mem_append.mp hx with hx | hx
        · exact List.mem_append_left _ hx
        · cases hx
      exact h.frame (h.pages.mono (fun e he => he) rfl (List.Subset.refl _) hsaved) rfl rfl hsaved
        (List.Subset.refl _) rfl rfl le_rfl fun f hf => ⟨f, hf, rfl⟩

/-- The engine is closed. -/
theorem close (h : s.TableInv) (dataBytes garbageBytes : ℕ) (ok : Bool) {s' : FileLifecycle n}
    (hs : s.run? (.close dataBytes garbageBytes ok) = some s') : s'.TableInv := by
  obtain rfl := Option.some.inj hs
  obtain ⟨hlt, hfits, hnodup⟩ := h.updatedSuperblock none dataBytes garbageBytes
  cases ok with
  | true =>
      rw [if_pos rfl]
      have hsave := h.pages.save (p := s.log.mgr.position) rfl hlt
      refine ⟨hsave.mono (fun e he => he) rfl (List.Subset.refl _) fun w hw => ?_, h.next_pos,
        h.file_lt, hlt, hfits, fun w hw => ?_, hnodup, h.exists_blob, h.ids⟩
      · rcases List.mem_append.mp hw with hw | hw
        · rw [List.mem_singleton.mp hw]
          exact List.mem_cons_self
        · cases hw
      · rcases List.mem_append.mp hw with hw | hw
        · rw [List.mem_singleton.mp hw]
          exact hfits
        · cases hw
  | false =>
      rw [if_neg Bool.false_ne_true]
      have hsaved : ∀ w ∈ (s.log.superblock.map fun p => (s.persisted, p)).toList ++ [],
          w ∈ s.saved := by
        intro w hw
        rw [List.append_nil] at hw
        exact List.mem_append_left _ hw
      exact ⟨h.pages.mono (fun e he => he) rfl (List.Subset.refl _) hsaved, h.next_pos,
        h.file_lt, hlt, hfits, fun w hw => h.saved_fits w (hsaved w hw), hnodup, h.exists_blob,
        h.ids⟩

/-- **What one step keeps** of the table of files. -/
theorem step (h : s.TableInv) {s' : FileLifecycle n} {ev : LifecycleEvent n}
    (hkeeps : s.KeepsTable ev) (hs : s.step ev = some s') : s'.TableInv := by
  have hs := run?_of_step hs
  have hsame : ∀ memIndex records, TableInv { s with memIndex := memIndex, records := records } :=
    fun _ _ => h.frame h.pages rfl rfl (List.Subset.refl _) (List.Subset.refl _) rfl rfl le_rfl
      fun f hf => ⟨f, hf, rfl⟩
  cases ev with
  | allocate kind =>
      obtain rfl := Option.some.inj hs
      refine ⟨h.pages, h.next_pos, fun f hf => ?_, h.superblock_lt, h.fits, h.saved_fits, h.nodup,
        fun f hf => ?_, ?_⟩
      · rcases List.mem_append.mp hf with hf | hf
        · exact h.file_lt f hf
        · rw [List.mem_singleton.mp hf]
          exact h.next_pos
      · rcases List.mem_append.mp hf with hf | hf
        · exact h.exists_blob f hf
        · rw [List.mem_singleton.mp hf]
          exact .inl rfl
      · have hids : s.space.pushNewFile.fileIds = s.space.fileIds ++ [s.space.nextFileId] :=
          List.map_append
        dsimp only
        rw [hids]
        refine h.ids.push.mono ?_
        simp only [FileLifecycle.pending, List.length_append, List.length_singleton]
        omega
  | blobAllocated i ok createTime =>
      obtain ⟨a, ha, hs⟩ := Option.bind_eq_some_iff.mp hs
      cases ok with
      | true =>
          obtain ⟨hnext, hs⟩ := Option.ite_none_right_eq_some.mp hs
          obtain rfl := Option.some.inj hs
          exact h.onBlobAllocated hkeeps ha hnext
      | false =>
          obtain rfl := Option.some.inj hs
          refine h.dropNewFile ?_
          have hi : i < s.creating.length := (List.getElem?_eq_some_iff.mp ha).1
          simp only [FileLifecycle.pending, List.length_append]
          rw [List.length_eraseIdx_of_lt hi]
          omega
  | entryWritten i ok late =>
      obtain ⟨w, hw, hs⟩ := Option.bind_eq_some_iff.mp hs
      obtain ⟨a, ha, rfl⟩ := Option.map_eq_some_iff.mp hs
      exact h.onEntryWritten ok late hw ha
  | headerWritten i ok =>
      obtain ⟨a, ha, rfl⟩ := Option.map_eq_some_iff.mp hs
      exact h.onHeaderWritten ok ha
  | write i size =>
      obtain ⟨-, hs⟩ := Option.ite_none_right_eq_some.mp hs
      obtain rfl := Option.some.inj hs
      exact h.modifyFile i (fun _ => rfl) fun _ => rfl
  | completePut i e =>
      obtain ⟨-, hs⟩ := Option.ite_none_right_eq_some.mp hs
      obtain rfl := Option.some.inj hs
      exact hsame _ _
  | completeDelete key =>
      obtain rfl := Option.some.inj hs
      exact hsame _ _
  | mark i state =>
      obtain rfl := Option.some.inj hs
      exact h.modifyFile i (fun _ => rfl) fun _ => rfl
  | migrate i offset =>
      obtain ⟨-, hs⟩ := Option.ite_none_right_eq_some.mp hs
      obtain rfl := Option.some.inj hs
      exact h.modifyFile i (fun _ => rfl) fun _ => rfl
  | updateIndex i m =>
      obtain ⟨-, hs⟩ := Option.ite_none_right_eq_some.mp hs
      obtain rfl := Option.some.inj hs
      exact hsame _ _
  | revertIndex m =>
      obtain rfl := Option.some.inj hs
      exact hsame _ _
  | discard i deleted =>
      obtain ⟨-, hs⟩ := Option.ite_none_right_eq_some.mp hs
      obtain rfl := Option.some.inj hs
      obtain rfl : deleted = false := hkeeps
      exact h.modifyFile i (fun _ => rfl) fun _ => rfl
  | updateSuperblock position dataBytes garbageBytes =>
      obtain rfl := Option.some.inj hs
      exact h.updateSuperblock position dataBytes garbageBytes
  | superblockWritten ok =>
      obtain ⟨w, hw, rfl⟩ := Option.map_eq_some_iff.mp hs
      exact h.superblockWritten hw ok
  | close dataBytes garbageBytes ok => exact h.close dataBytes garbageBytes ok hs
  | reopen recovered =>
      obtain ⟨p, hp, hs⟩ := Option.bind_eq_some_iff.mp hs
      obtain ⟨⟨hcan, hne⟩, hs⟩ := Option.ite_none_right_eq_some.mp hs
      obtain rfl := Option.some.inj hs
      exact h.reopened hkeeps hp hcan hne

theorem created (index : MemIndex n) (dataFileSize : ℕ) (createTime : UInt64) :
    (FileLifecycle.created index dataFileSize createTime).TableInv := by
  have hpage : ∀ e, (FileLifecycle.created index dataFileSize createTime).log.OnPage e → e.Valid →
      e = firstEntry dataFileSize createTime := by
    have hupdate : ∀ e : AllocLogEntry, e.Valid →
        (∃ i, (createdLog dataFileSize createTime).disk i = e) →
        e = firstEntry dataFileSize createTime := by
      rintro e hv ⟨i, rfl⟩
      rw [createdLog] at hv ⊢
      dsimp only at hv ⊢
      by_cases hi : i = allocLogSlot 0
      · rw [hi, Function.update_self]
      · rw [Function.update_of_ne hi] at hv
        exact absurd hv zero_not_valid
    rintro e (hmem | hdisk | ⟨w, hw, -⟩) hv
    · exact hupdate e hv hmem
    · exact hupdate e hv hdisk
    · cases hw
  have hblob : ∀ b ∈ [1], b < 2 := by decide
  have hseq : (firstEntry dataFileSize createTime).sequence ≤ 1 := UInt32.le_refl _
  have hsaved : ∀ w ∈ (FileLifecycle.created index dataFileSize createTime).saved,
      w = ((FileSpace.created (W := Unit) dataFileSize).superblock, ⟨0, 1, 1⟩) :=
    fun w hw => List.mem_singleton.mp hw
  have hfits : (FileSpace.created (W := Unit) dataFileSize).superblock.Fits :=
    Nat.succ_le_of_lt (Nat.succ_pos _)
  refine ⟨⟨fun e he hv _ => ?_, fun w hw e he hv _ _ => ?_, fun e e' he he' hv hv' _ => ?_,
    fun e he hv => ?_, hblob, fun w hw => ?_⟩, Nat.two_pos, fun f hf => ?_, hblob, hfits,
    fun w hw => ?_, List.nodup_singleton _, fun f hf => ?_, ?_⟩
  · rw [hpage e he hv]
    exact hseq
  · rw [hpage e he hv, hsaved w hw]
    exact hseq
  · rw [hpage e he hv, hpage e' he' hv']
  · rw [hpage e he hv]
    exact hblob 1 (List.mem_singleton_self 1)
  · rw [hsaved w hw]
    exact hblob
  · rw [List.mem_singleton.mp hf]
    exact hblob 1 (List.mem_singleton_self 1)
  · rw [hsaved w hw]
    exact hfits
  · rw [List.mem_singleton.mp hf]
    exact .inr (List.mem_singleton_self 1)
  · have hids : IdsInOrder [0] 1 0 := .of_nodup (List.cons_ne_nil _ _) (List.nodup_singleton 0)
      (by simp) (Nat.succ_le_of_lt (Nat.succ_pos _))
    exact hids

end TableInv

/-! ### `open` after `close` -/

/-- Two engines have the same files, as far as their blobs exist in the first, and in the
second all are open and have an id below the next one. -/
def SameFiles (s s' : FileLifecycle n) : Prop :=
  s'.space.files.Perm ((s.space.files.filter fun f => f.blobId ∈ s.blobs).map fun f =>
    { f with blobOpened := true }) ∧
    ∀ f ∈ s'.space.files, f.fileId < s'.space.nextFileId

/-- After `close` the log has nothing that `open` takes notice of. -/
theorem TableInv.not_canOpen (h : s.TableInv) (hp : s.log.superblock = some s.log.mgr.position)
    {e : AllocLogEntry} (he : e ∈ s.foundEntries) : s.canOpen e = false := by
  rw [foundEntries, hp] at he
  obtain ⟨hpage, hvalid, hlt, -⟩ := AllocLogPosition.mem_recover he
  rw [canOpen, decide_eq_false_iff_not]
  intro hb
  exact UInt32.not_lt.mpr (h.pages.le e (.inr (.inl hpage)) hvalid hb) hlt

/-- Then `open` loads the superblock as it is, and deletes no blob for its header. -/
theorem TableInv.loaded_eq (h : s.TableInv) (hp : s.log.superblock = some s.log.mgr.position) :
    s.loaded = s.persisted ∧ s.remainingBlobs = s.blobs := by
  have hnone : ∀ p : AllocLogEntry → Bool,
      (s.foundEntries.filter fun e => s.canOpen e && p e) = [] := by
    intro p
    refine List.filter_eq_nil_iff.mpr fun e he => ?_
    rw [h.not_canOpen hp he, Bool.false_and]
    exact Bool.false_ne_true
  constructor
  · rw [loaded, validAllocations, hnone, SuperblockFiles.addLogged]
    simp
  · rw [remainingBlobs, rejectedBlobs, hnone]
    simp

/-- The mappings after `close` are those of the files. -/
theorem TableInv.perm_updatedSuperblock (h : s.TableInv) {dataBytes garbageBytes : ℕ} {ok : Bool}
    (hkeeps : s.KeepsTable (.close dataBytes garbageBytes ok)) :
    (s.space.updatedSuperblock none dataBytes garbageBytes).fileMappings.Perm
      (s.space.files.map FileMapping.ofFile) := by
  obtain ⟨-, hlen, hmapped⟩ := hkeeps
  have hids : s.space.fileIds.Nodup :=
    (h.ids.perm_range (s.space.length_fileIds ▸ hlen)).nodup_iff.mpr List.nodup_range
  have hroom : s.space.superblock.HasRoomFor s.space.files := by
    -- the mapped ids and those of the new files are distinct ids of files
    have hperm : (s.space.superblock.fileIds ++
        ((s.space.files.filter fun f => f.fileId ∉ s.space.superblock.fileIds).map
          FileInfo.fileId)).Nodup := by
      refine List.Nodup.append h.nodup ?_ fun id hid hnew => ?_
      · exact hids.sublist (List.Sublist.map _ List.filter_sublist)
      · obtain ⟨f, hf, rfl⟩ := List.mem_map.mp hnew
        exact of_decide_eq_true (List.mem_filter.mp hf).2 hid
    have hsub : (s.space.superblock.fileIds ++
        ((s.space.files.filter fun f => f.fileId ∉ s.space.superblock.fileIds).map
          FileInfo.fileId)) ⊆ s.space.fileIds := by
      refine List.append_subset.mpr ⟨hmapped, ?_⟩
      exact List.map_subset _ (List.filter_subset_self _)
    have := (hperm.subperm hsub).length_le
    rw [List.length_append, List.length_map, s.space.length_fileIds,
      SuperblockFiles.fileIds, List.length_map] at this
    exact this.trans hlen
  have hnodup : (s.space.updatedSuperblock none dataBytes garbageBytes).fileIds.Nodup :=
    (h.updatedSuperblock none dataBytes garbageBytes).2.2
  have hnodup' : (s.space.files.map FileMapping.ofFile).Nodup := by
    refine List.Nodup.of_map FileMapping.fileId ?_
    rw [List.map_map]
    exact hids
  refine (List.perm_ext_iff_of_nodup (List.Nodup.of_map _ hnodup) hnodup').mpr fun m => ?_
  refine (SuperblockFiles.mem_updateAll_iff h.nodup hids hroom).trans ⟨?_, fun hm => ?_⟩
  · rintro (⟨f, hf, rfl⟩ | ⟨hm, hno⟩)
    · exact List.mem_map_of_mem hf
    · exact absurd (hmapped _ (List.mem_map_of_mem hm)) hno
  · obtain ⟨f, hf, rfl⟩ := List.mem_map.mp hm
    exact .inl ⟨f, hf, rfl⟩

/-- What `close` leaves. -/
theorem run?_close {dataBytes garbageBytes : ℕ} {c : FileLifecycle n}
    (hs : s.run? (.close dataBytes garbageBytes true) = some c) :
    c.closed = true ∧ c.blobs = s.blobs ∧
      c.persisted = s.space.updatedSuperblock none dataBytes garbageBytes ∧
      c.log.superblock = some c.log.mgr.position := by
  obtain rfl := Option.some.inj hs
  exact ⟨rfl, rfl, rfl, rfl⟩

/-- **`open` after `close`**: in every run whose steps keep the table of files, the next
`open` succeeds and has the same files. -/
theorem clean_restart {index : MemIndex n} {dataFileSize : ℕ} {createTime : UInt64}
    {events : List (LifecycleEvent n)} {dataBytes garbageBytes : ℕ} {t c : FileLifecycle n}
    (hmeets : (lifecycleMachine n).Meets KeepsTable
      (FileLifecycle.created index dataFileSize createTime) events)
    (hrun : (lifecycleMachine n).run (FileLifecycle.created index dataFileSize createTime)
      events = some t)
    (hkeeps : t.KeepsTable (.close dataBytes garbageBytes true))
    (hclose : t.step (.close dataBytes garbageBytes true) = some c) (recovered : MemIndex n) :
    ∃ s', c.step (.reopen recovered) = some s' ∧ t.SameFiles s' := by
  have h := (lifecycleMachine n).run_invariant TableInv (fun _ _ _ h hk hs => h.step hk hs)
    (.created index dataFileSize createTime) hmeets hrun
  have hc := h.step hkeeps hclose
  obtain ⟨hclosed, hblobs, hpersisted, hp⟩ := run?_close (run?_of_step hclose)
  obtain ⟨hloaded, hremaining⟩ := hc.loaded_eq hp
  have hperm : c.loaded.fileMappings.Perm (t.space.files.map FileMapping.ofFile) := by
    rw [hloaded, hpersisted]
    exact h.perm_updatedSuperblock hkeeps
  have hexists : ∀ f ∈ t.space.files, f.blobId ∈ t.blobs :=
    fun f hf => (h.exists_blob f hf).resolve_left (hkeeps.1 f hf)
  have hne : c.loaded.fileMappings ≠ [] := by
    intro hnil
    rw [hnil] at hperm
    refine h.ids.ne_nil ?_
    rw [FileSpace.fileIds, List.map_eq_nil_iff.mp hperm.nil_eq.symm]
    rfl
  have hcan : c.canRebuild = true := by
    refine List.all_eq_true.mpr fun b hb => decide_eq_true ?_
    obtain ⟨m, hm, rfl⟩ := List.mem_map.mp hb
    obtain ⟨f, hf, rfl⟩ := List.mem_map.mp (hperm.mem_iff.mp hm)
    rw [hremaining, hblobs]
    exact hexists f hf
  have hopen : c.step (.reopen recovered) = some (c.reopened recovered c.log.mgr.position) := by
    simp only [FileLifecycle.step, hclosed, run?, hp, Option.bind_some]
    exact if_pos ⟨hcan, hne⟩
  refine ⟨_, hopen, ?_, ?_⟩
  · rw [FileLifecycle.reopened, FileSpace.reopened_eq _ _ hne, List.filter_eq_self.mpr fun f hf =>
      decide_eq_true (hexists f hf)]
    refine (hperm.map FileMapping.toFile).trans ?_
    rw [List.map_map]
    exact .refl _
  · rw [FileLifecycle.reopened, FileSpace.reopened_eq _ _ hne]
    intro f hf
    obtain ⟨m, hm, rfl⟩ := List.mem_map.mp hf
    obtain ⟨g, hg, rfl⟩ := List.mem_map.mp (hperm.mem_iff.mp hm)
    have hrange := (h.ids.perm_range (t.space.length_fileIds ▸ hkeeps.2.1)).mem_iff.mp
      (List.mem_map_of_mem hg)
    rw [List.mem_range, t.space.length_fileIds] at hrange
    refine hrange.trans_eq ?_
    rw [← List.length_map FileMapping.ofFile]
    exact hperm.length_eq.symm

/-- A second file, a checkpoint, and a compaction that finishes: its destination is filled and
its source marked. -/
def compactOnce : List (LifecycleEvent n) :=
  allocateFile ++ [.write 1 4096] ++ checkpoint true ++
    [.allocate .compaction, .blobAllocated 0 true 0, .entryWritten 0 true false,
      .headerWritten 0 true, .migrate 2 8192, .mark 0 .kDeleted]

/-- These files are there after a restart. -/
theorem clean_restart_sample :
    ∃ t c, (lifecycleMachine 3).run smallFiles compactOnce = some t ∧
      t.step (.close 0 0 true) = some c ∧
      ∃ s', c.step (.reopen (MemIndex.fresh 3)) = some s' ∧ t.SameFiles s' :=
  ⟨_, _, rfl, rfl, clean_restart (show (lifecycleMachine 3).Meets KeepsTable smallFiles
    compactOnce by decide +kernel) rfl (by decide +kernel) rfl _⟩

/-- A compaction that fails: its destination is closed and the blob deleted. -/
def compactInVain : List (LifecycleEvent n) :=
  [.allocate .compaction, .blobAllocated 0 true 0, .entryWritten 0 true false,
    .headerWritten 0 true, .migrate 1 8192, .discard 1 true]

/-- **A restart that fails**: the mapping of the destination is never removed, so the next
`open` tries to open its blob, and gives up. -/
theorem restart_fails :
    ∃ t c, (lifecycleMachine 3).run smallFiles compactInVain = some t ∧
      t.step (.close 0 0 true) = some c ∧ c.step (.reopen (MemIndex.fresh 3)) = none :=
  ⟨_, _, rfl, rfl, by decide +kernel⟩

end FileLifecycle

end SpdkKv
