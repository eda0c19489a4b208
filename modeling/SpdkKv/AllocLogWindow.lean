import SpdkKv.AllocLogRecovery

/-!
# The Window of a Persisted Position

What a scan from a persisted position of the allocation log finds while the log goes on. The
position need not be the one in the superblock on disk: a superblock is filled with a
position, then written, and the write may fail. Page writes may fail as well; a later page
carries their entries all the same.

## Main results

* `PagesInOrder.tracks`: a position is tracked from the moment it is taken.
* `Tracks.writeEntry`, `Tracks.pageWritten`, `Tracks.pageFailed`, `Tracks.reclaim`,
  `Tracks.persist`, `Tracks.restart`: **what the steps of the log keep in the window of a position**.
* `Tracks.mem_recover`: every entry whose page write completed is found.
-/

namespace SpdkKv

/-! ### The invariants -/

/-- No page holds an entry newer than the counter, and page writes are in flight in the order
of their entries. -/
structure PagesInOrder (s : AllocLogState) : Prop where
  page_le : ∀ i, (s.mgr.page i).Valid → (s.mgr.page i).sequence ≤ s.mgr.sequence
  disk_le : ∀ i, (s.disk i).Valid → (s.disk i).sequence ≤ s.mgr.sequence
  inFlight_le : ∀ w ∈ s.inFlight, w.1.sequence ≤ s.mgr.sequence ∧
    ∀ i, (w.2 i).Valid → (w.2 i).sequence ≤ s.mgr.sequence
  completed_le : ∀ e ∈ s.completed, e.sequence ≤ s.mgr.sequence
  sorted : s.inFlight.Pairwise fun w w' => w.1.sequence ≤ w'.1.sequence

/-- How many entries were written after the position, up to the given one. -/
def AllocLogPosition.upTo (p : AllocLogPosition) (e : AllocLogEntry) : ℕ :=
  e.sequence.toNat - p.sequence.toNat

/-- The entries `log` were written since the position `p` was taken. The pages carry them as
far as they go, and the page on disk at least the first `done`, among which are all whose page
write completed. -/
structure Tracks (s : AllocLogState) (p : AllocLogPosition) (log : List AllocLogEntry)
    (done : ℕ) : Prop where
  consecutive : Consecutive p.sequence log
  sequence : s.mgr.sequence.toNat = p.sequence.toNat + log.length
  /-- Entries follow the head, once there are any. -/
  tail : log ≠ [] → s.mgr.tail = p.head + UInt32.ofNat log.length
  length_le : log.length ≤ kAllocLogCapacity
  page : Carries p.head p.sequence log log.length s.mgr.page
  disk : ∃ k, done ≤ k ∧ k ≤ log.length ∧ Carries p.head p.sequence log k s.disk
  completed : ∀ e ∈ s.completed, p.sequence < e.sequence → e ∈ log.take done
  inFlight : ∀ w ∈ s.inFlight, done ≤ p.upTo w.1 ∧
    Carries p.head p.sequence log (p.upTo w.1) w.2 ∧
    (p.sequence < w.1.sequence → w.1 ∈ log.take (p.upTo w.1))

/-- When the next entry keeps the window: it is written where a scan from the position expects
it, and there is room in the ring. -/
def AllocLogPosition.Aligned (p : AllocLogPosition) (mgr : AllocLogManager) : Prop :=
  mgr.tail - p.head = mgr.sequence - p.sequence ∧ (mgr.tail - p.head).toNat < kAllocLogCapacity

instance (p : AllocLogPosition) (mgr : AllocLogManager) : Decidable (p.Aligned mgr) :=
  inferInstanceAs (Decidable (_ ∧ _))

/-- The position that the manager has. -/
def AllocLogManager.position (self : AllocLogManager) : AllocLogPosition :=
  ⟨self.head, self.tail, self.sequence⟩

/-! ### Taking a position -/

/-- Nothing was written since the position that is taken now. -/
theorem PagesInOrder.tracks {s : AllocLogState} (h : PagesInOrder s) {p : AllocLogPosition}
    (hp : p.sequence = s.mgr.sequence) : Tracks s p [] 0 where
  consecutive := by
    rintro j e he
    simp at he
  sequence := by rw [hp]; rfl
  tail := fun hne => absurd rfl hne
  length_le := Nat.zero_le _
  page := carries_nil (fun i hv => hp ▸ h.page_le i hv) []
  disk := ⟨0, le_rfl, le_rfl, carries_nil (fun i hv => hp ▸ h.disk_le i hv) []⟩
  completed := fun e he hlt => absurd (hp ▸ hlt) (UInt32.not_lt.mpr (h.completed_le e he))
  inFlight := by
    intro w hw
    obtain ⟨hle, hpage⟩ := h.inFlight_le w hw
    have hzero : p.upTo w.1 = 0 := by
      rw [AllocLogPosition.upTo, hp]
      exact Nat.sub_eq_zero_of_le (UInt32.le_iff_toNat_le.mp hle)
    rw [hzero]
    exact ⟨le_rfl, carries_nil (fun i hv => hp ▸ hpage i hv) [],
      fun hlt => absurd (hp ▸ hlt) (UInt32.not_lt.mpr hle)⟩

/-! ### Writing an entry -/

theorem Consecutive.append {seq : UInt32} {log : List AllocLogEntry} (h : Consecutive seq log)
    {e : AllocLogEntry} (hv : e.Valid) (he : e.sequence.toNat = seq.toNat + log.length + 1) :
    Consecutive seq (log ++ [e]) := by
  intro j x hx
  rcases Nat.lt_trichotomy j log.length with hlt | rfl | hgt
  · rw [List.getElem?_append_left hlt] at hx
    exact h j x hx
  · rw [List.getElem?_concat_length] at hx
    obtain rfl := Option.some.inj hx
    exact ⟨hv, he⟩
  · rw [List.getElem?_eq_none (by rw [List.length_append, List.length_singleton]; omega)] at hx
    cases hx

theorem Tracks.done_le {s : AllocLogState} {p : AllocLogPosition} {log : List AllocLogEntry}
    {done : ℕ} (h : Tracks s p log done) : done ≤ log.length := by
  obtain ⟨k, hk, hkle, -⟩ := h.disk
  exact hk.trans hkle

/-- An entry that is not newer than the counter is one of the log, if it is not older. -/
theorem Tracks.upTo_le {s : AllocLogState} {p : AllocLogPosition} {log : List AllocLogEntry}
    {done : ℕ} (h : Tracks s p log done) {e : AllocLogEntry}
    (he : e.sequence ≤ s.mgr.sequence) : p.upTo e ≤ log.length := by
  rw [UInt32.le_iff_toNat_le, h.sequence] at he
  rw [AllocLogPosition.upTo]
  omega

/-- Where the next entry goes, when it goes where a scan expects it. -/
theorem Tracks.tail_eq {s : AllocLogState} {p : AllocLogPosition} {log : List AllocLogEntry}
    {done : ℕ} (h : Tracks s p log done)
    (htail : s.mgr.tail - p.head = s.mgr.sequence - p.sequence) :
    s.mgr.tail = p.head + UInt32.ofNat log.length ∧
      (s.mgr.tail - p.head).toNat = log.length := by
  have hlen : log.length < 2 ^ 32 := lt_of_le_of_lt h.length_le (by decide)
  have hseq : s.mgr.sequence = p.sequence + UInt32.ofNat log.length := by
    refine UInt32.toNat_inj.mp ?_
    have hlt := s.mgr.sequence.toNat_lt
    rw [h.sequence] at hlt ⊢
    rw [UInt32.toNat_add, UInt32.toNat_ofNat', Nat.mod_eq_of_lt hlen, Nat.mod_eq_of_lt hlt]
  have hdiff : s.mgr.sequence - p.sequence = UInt32.ofNat log.length := by
    rw [hseq]
    grind
  rw [hdiff] at htail
  refine ⟨by grind, ?_⟩
  rw [htail, UInt32.toNat_ofNat', Nat.mod_eq_of_lt hlen]

/-- An entry that is written keeps the pages in order. -/
theorem PagesInOrder.writeEntry {s : AllocLogState} (h : PagesInOrder s) {a : Allocation}
    {e : AllocLogEntry} {mgr : AllocLogManager} (hw : s.mgr.writeEntry a = some (e, mgr))
    (hwrap : s.mgr.sequence.toNat + 1 < 2 ^ 32) :
    PagesInOrder { s with mgr := mgr, inFlight := s.inFlight ++ [(e, mgr.page)] } := by
  obtain ⟨-, he, rfl⟩ := writeEntry_eq_some hw
  have hgrow : ∀ x : UInt32, x ≤ s.mgr.sequence → x ≤ s.mgr.sequence + 1 := by
    intro x hx
    rw [UInt32.le_iff_toNat_le] at hx ⊢
    rw [toNat_add_one hwrap]
    omega
  have hseq : e.sequence = s.mgr.sequence + 1 := he ▸ AllocLogEntry.build_sequence _ _
  have hpage : ∀ i, (Function.update s.mgr.page (allocLogSlot s.mgr.tail) e i).Valid →
      (Function.update s.mgr.page (allocLogSlot s.mgr.tail) e i).sequence ≤
        s.mgr.sequence + 1 := by
    intro i hv
    by_cases hi : i = allocLogSlot s.mgr.tail
    · subst hi
      rw [Function.update_self, hseq]
      exact UInt32.le_refl _
    · rw [Function.update_of_ne hi] at hv ⊢
      exact hgrow _ (h.page_le i hv)
  refine ⟨hpage, fun i hv => hgrow _ (h.disk_le i hv), fun w hw => ?_,
    fun x hx => hgrow _ (h.completed_le x hx), ?_⟩
  · rcases List.mem_append.mp hw with hw | hw
    · exact ⟨hgrow _ (h.inFlight_le w hw).1, fun i hv =>
        hgrow _ ((h.inFlight_le w hw).2 i hv)⟩
    · obtain rfl := List.mem_singleton.mp hw
      exact ⟨hseq ▸ UInt32.le_refl _, hpage⟩
  · refine List.pairwise_append.mpr ⟨h.sorted, List.pairwise_singleton .., fun w hw w' hw' => ?_⟩
    obtain rfl := List.mem_singleton.mp hw'
    dsimp only
    rw [hseq]
    exact hgrow _ (h.inFlight_le w hw).1

/-- An entry that is written where a scan from the position expects it. -/
theorem Tracks.writeEntry {s : AllocLogState} {p : AllocLogPosition} {log : List AllocLogEntry}
    {done : ℕ} (h : Tracks s p log done) (hs : PagesInOrder s) {a : Allocation}
    {e : AllocLogEntry} {mgr : AllocLogManager} (hw : s.mgr.writeEntry a = some (e, mgr))
    (hwrap : s.mgr.sequence.toNat + 1 < 2 ^ 32) (halign : p.Aligned s.mgr) :
    Tracks { s with mgr := mgr, inFlight := s.inFlight ++ [(e, mgr.page)] } p (log ++ [e])
      done := by
  obtain ⟨-, he, rfl⟩ := writeEntry_eq_some hw
  obtain ⟨htail, hroom⟩ := halign
  obtain ⟨htl, hcount⟩ := h.tail_eq htail
  rw [hcount] at hroom
  have hlen : (log ++ [e]).length = log.length + 1 := by simp
  have hseq : e.sequence.toNat = p.sequence.toNat + log.length + 1 := by
    rw [he, AllocLogEntry.build_sequence, toNat_add_one hwrap, h.sequence]
  have hpage : Carries p.head p.sequence (log ++ [e]) (log.length + 1)
      (Function.update s.mgr.page (allocLogSlot s.mgr.tail) e) := by
    rw [htl]
    exact h.page.update hroom e
  refine ⟨h.consecutive.append (he ▸ AllocLogEntry.build_valid _ _) hseq, ?_, ?_, ?_, ?_, ?_,
    fun x hx hlt => ?_, fun w hw => ?_⟩
  · dsimp only
    rw [hlen, toNat_add_one hwrap, h.sequence]
    omega
  · intro _
    dsimp only
    rw [hlen, htl]
    have : UInt32.ofNat (log.length + 1) = UInt32.ofNat log.length + 1 := UInt32.ofNat_add ..
    grind
  · rw [hlen]
    exact hroom
  · rw [hlen]
    exact hpage
  · obtain ⟨k, hk, hkle, hcarry⟩ := h.disk
    exact ⟨k, hk, by omega, hcarry.append hkle _⟩
  · rw [List.take_append_of_le_length h.done_le]
    exact h.completed x hx hlt
  · rcases List.mem_append.mp hw with hw | hw
    · obtain ⟨hd, hcarry, hmem⟩ := h.inFlight w hw
      have hle := h.upTo_le (hs.inFlight_le w hw).1
      refine ⟨hd, hcarry.append hle _, fun hlt => ?_⟩
      rw [List.take_append_of_le_length hle]
      exact hmem hlt
    · obtain rfl := List.mem_singleton.mp hw
      have hdone := h.done_le
      have hup : p.upTo e = log.length + 1 := by
        rw [AllocLogPosition.upTo, hseq]
        omega
      dsimp only
      rw [hup]
      refine ⟨by omega, hpage, fun _ => ?_⟩
      rw [← hlen, List.take_length]
      exact List.mem_append_right _ (List.mem_singleton.mpr rfl)

/-! ### Page writes -/

/-- A page write that lands before the others, with the bytes it was submitted with or with
those of the page as it is now. -/
theorem PagesInOrder.pageWritten {s : AllocLogState} (h : PagesInOrder s) (late : Bool)
    {w : AllocLogEntry × AllocLogPage} {rest : List (AllocLogEntry × AllocLogPage)}
    (hw : s.inFlight = w :: rest) :
    PagesInOrder { s with
      disk := if late then s.mgr.page else w.2
      inFlight := rest
      completed := s.completed ++ [w.1] } := by
  have hle := h.inFlight_le w (by rw [hw]; exact List.mem_cons_self)
  refine ⟨h.page_le, fun i hv => ?_, fun x hx => h.inFlight_le x (by
    rw [hw]; exact List.mem_cons_of_mem _ hx), fun x hx => ?_, ?_⟩
  · cases late with
    | true => exact h.page_le i hv
    | false => exact hle.2 i hv
  · rcases List.mem_append.mp hx with hx | hx
    · exact h.completed_le x hx
    · rw [List.mem_singleton.mp hx]
      exact hle.1
  · have := h.sorted
    rw [hw] at this
    exact this.of_cons

theorem Tracks.pageWritten {s : AllocLogState} {p : AllocLogPosition}
    {log : List AllocLogEntry} {done : ℕ} (h : Tracks s p log done) (hs : PagesInOrder s)
    (late : Bool) {w : AllocLogEntry × AllocLogPage}
    {rest : List (AllocLogEntry × AllocLogPage)} (hw : s.inFlight = w :: rest) :
    Tracks { s with
      disk := if late then s.mgr.page else w.2
      inFlight := rest
      completed := s.completed ++ [w.1] } p log (p.upTo w.1) := by
  have hmem : w ∈ s.inFlight := by rw [hw]; exact List.mem_cons_self
  obtain ⟨hd, hcarry, hin⟩ := h.inFlight w hmem
  have hle := h.upTo_le (hs.inFlight_le w hmem).1
  refine ⟨h.consecutive, h.sequence, h.tail, h.length_le, h.page, ?_, fun e he hlt => ?_,
    fun x hx => ?_⟩
  · cases late with
    | true => exact ⟨log.length, hle, le_rfl, h.page⟩
    | false => exact ⟨p.upTo w.1, le_rfl, hle, hcarry⟩
  · rcases List.mem_append.mp he with he | he
    · exact List.take_subset_take_left log hd (h.completed e he hlt)
    · obtain rfl := List.mem_singleton.mp he
      exact hin hlt
  · obtain ⟨-, hxcarry, hxin⟩ := h.inFlight x (by rw [hw]; exact List.mem_cons_of_mem _ hx)
    refine ⟨?_, hxcarry, hxin⟩
    have hsorted := hs.sorted
    rw [hw] at hsorted
    have := UInt32.le_iff_toNat_le.mp ((List.pairwise_cons.mp hsorted).1 x hx)
    rw [AllocLogPosition.upTo, AllocLogPosition.upTo]
    omega

/-- A page write that fails. -/
theorem PagesInOrder.pageFailed {s : AllocLogState} (h : PagesInOrder s) (i : ℕ)
    (failed : List AllocLogEntry) :
    PagesInOrder { s with inFlight := s.inFlight.eraseIdx i, failed := failed } :=
  ⟨h.page_le, h.disk_le, fun w hw => h.inFlight_le w (List.eraseIdx_subset hw),
    h.completed_le, h.sorted.sublist (List.eraseIdx_sublist ..)⟩

theorem Tracks.pageFailed {s : AllocLogState} {p : AllocLogPosition} {log : List AllocLogEntry}
    {done : ℕ} (h : Tracks s p log done) (i : ℕ) (failed : List AllocLogEntry) :
    Tracks { s with inFlight := s.inFlight.eraseIdx i, failed := failed } p log done :=
  ⟨h.consecutive, h.sequence, h.tail, h.length_le, h.page, h.disk, h.completed,
    fun w hw => h.inFlight w (List.eraseIdx_subset hw)⟩

/-! ### Emptying the log -/

theorem PagesInOrder.reclaim {s : AllocLogState} (h : PagesInOrder s) :
    PagesInOrder { s with mgr := s.mgr.reclaim } :=
  ⟨h.page_le, h.disk_le, h.inFlight_le, h.completed_le, h.sorted⟩

theorem Tracks.reclaim {s : AllocLogState} {p : AllocLogPosition} {log : List AllocLogEntry}
    {done : ℕ} (h : Tracks s p log done) : Tracks { s with mgr := s.mgr.reclaim } p log done :=
  ⟨h.consecutive, h.sequence, h.tail, h.length_le, h.page, h.disk, h.completed, h.inFlight⟩

/-! ### Persisting a position -/

theorem PagesInOrder.persist {s : AllocLogState} (h : PagesInOrder s)
    (p : Option AllocLogPosition) : PagesInOrder { s with superblock := p } :=
  ⟨h.page_le, h.disk_le, h.inFlight_le, h.completed_le, h.sorted⟩

theorem Tracks.persist {s : AllocLogState} {p : AllocLogPosition} {log : List AllocLogEntry}
    {done : ℕ} (h : Tracks s p log done) (q : Option AllocLogPosition) :
    Tracks { s with superblock := q } p log done :=
  ⟨h.consecutive, h.sequence, h.tail, h.length_le, h.page, h.disk, h.completed, h.inFlight⟩

/-! ### Restarting -/

/-- What a restart from the position finds, and where it goes on. -/
theorem Tracks.recover {s : AllocLogState} {p : AllocLogPosition} {log : List AllocLogEntry}
    {done : ℕ} (h : Tracks s p log done) :
    ∃ k, done ≤ k ∧ k ≤ log.length ∧ Carries p.head p.sequence log k s.disk ∧
      (p.recover s.disk).2 = log.take k ∧
      (p.recover s.disk).1.sequence.toNat = p.sequence.toNat + k ∧
      (p.recover s.disk).1.head = p.head ∧
      (p.recover s.disk).1.tail = p.head + UInt32.ofNat k ∧
      (p.recover s.disk).1.page = s.disk := by
  obtain ⟨k, hk, hkle, hcarry⟩ := h.disk
  refine ⟨k, hk, hkle, hcarry, ?_⟩
  have hscan := scanEntries_eq_take hcarry h.consecutive (hkle.trans h.length_le)
  have hlen : (log.take k).length = k := by
    rw [List.length_take]
    exact min_eq_left hkle
  rw [AllocLogPosition.recover, AllocLogManager.loadEntries, AllocLogManager.init, hscan]
  refine ⟨rfl, ?_, rfl, by rw [hlen], rfl⟩
  dsimp only
  rcases Nat.eq_zero_or_pos k with rfl | hpos
  · rw [List.take_zero]
    rfl
  · obtain ⟨last, hget⟩ : ∃ last, log[k - 1]? = some last :=
      ⟨_, List.getElem?_eq_getElem (by omega)⟩
    have hlast : (log.take k).getLast? = some last := by
      rw [List.getLast?_eq_getElem?, hlen, List.getElem?_take_of_lt (by omega), hget]
    rw [hlast, Option.map_some, Option.getD_some, (h.consecutive _ _ hget).2]
    omega

/-- **The window holds every entry whose page write completed** after the position was
taken. -/
theorem Tracks.mem_recover {s : AllocLogState} {p : AllocLogPosition}
    {log : List AllocLogEntry} {done : ℕ} (h : Tracks s p log done) {e : AllocLogEntry}
    (he : e ∈ s.completed) (hlt : p.sequence < e.sequence) : e ∈ (p.recover s.disk).2 := by
  obtain ⟨k, hk, -, -, hres, -⟩ := h.recover
  rw [hres]
  exact List.take_subset_take_left log hk (h.completed e he hlt)

theorem Consecutive.take {seq : UInt32} {log : List AllocLogEntry} (h : Consecutive seq log)
    (k : ℕ) : Consecutive seq (log.take k) := by
  intro j e he
  rw [List.getElem?_take] at he
  exact h j e (Option.ite_none_right_eq_some.mp he).2

/-- A restart from the position. -/
theorem Tracks.restart {s : AllocLogState} {p : AllocLogPosition} {log : List AllocLogEntry}
    {done : ℕ} (h : Tracks s p log done) :
    PagesInOrder { s with mgr := (p.recover s.disk).1, inFlight := [], failed := [] } ∧
      ∃ log' done', log' ⊆ log ∧
        Tracks { s with mgr := (p.recover s.disk).1, inFlight := [], failed := [] } p log'
          done' := by
  obtain ⟨k, hk, hkle, hcarry, -, hseq, hhead, htail, hpage⟩ := h.recover
  have hlen : (log.take k).length = k := by
    rw [List.length_take]
    exact min_eq_left hkle
  have hcarry' : Carries p.head p.sequence (log.take k) k s.disk :=
    ⟨fun j hj => by rw [List.getElem?_take_of_lt hj, hcarry.held j hj], hcarry.old⟩
  have hdisk : ∀ i, (s.disk i).Valid → (s.disk i).sequence.toNat ≤ p.sequence.toNat + k := by
    intro i hv
    by_cases hi : ∃ j < k, i = allocLogSlot (p.head + UInt32.ofNat j)
    · obtain ⟨j, hj, rfl⟩ := hi
      have := (h.consecutive j _ (hcarry.held j hj)).2
      omega
    · have := UInt32.le_iff_toNat_le.mp
        (hcarry.old i (fun j hj heq => hi ⟨j, hj, heq⟩) hv)
      omega
  refine ⟨⟨fun i hv => ?_, fun i hv => ?_, by simp, fun e he => ?_, .nil⟩,
    log.take k, done, List.take_subset .., ⟨h.consecutive.take k, ?_, fun _ => ?_, ?_, ?_, ?_, fun e he hlt => ?_,
    by simp⟩⟩
  · dsimp only at hv ⊢
    rw [hpage] at hv ⊢
    rw [UInt32.le_iff_toNat_le, hseq]
    exact hdisk i hv
  · rw [UInt32.le_iff_toNat_le, hseq]
    exact hdisk i hv
  · rw [UInt32.le_iff_toNat_le, hseq]
    by_cases hlt : p.sequence < e.sequence
    · obtain ⟨j, hj⟩ := List.mem_iff_getElem?.mp (h.completed e he hlt)
      rw [List.getElem?_take] at hj
      obtain ⟨hjd, hj⟩ := Option.ite_none_right_eq_some.mp hj
      have := (h.consecutive j e hj).2
      omega
    · rw [UInt32.lt_iff_toNat_lt] at hlt
      omega
  · rw [hlen]
    exact hseq
  · rw [hlen]
    exact htail
  · rw [hlen]
    exact hkle.trans h.length_le
  · rw [hlen]
    dsimp only
    rw [hpage]
    exact hcarry'
  · exact ⟨k, hk, hlen.ge, hcarry'⟩
  · rw [List.take_take, min_eq_left hk]
    exact h.completed e he hlt

end SpdkKv
