import SpdkKv.AllocLog
import SpdkKv.Lib.Machine

/-!
# Recovering the Allocation Log

The allocation log together with what surrounds it: page writes in flight, the superblock
with the last persisted position of the log, and crashes. `Engine::initialize_new` and
`Engine::close` persist the position as it is; `Engine::on_superblock_update` reclaims the
log first. `load_entries` starts at the persisted head, so it finds the entries that
followed only if the head was also the tail when the position was persisted.

## Main results

* `AllocLogInv.step`: what one step keeps.
* `recover_exact`: **recovery returns exactly the entries it should**, in every run whose
  writes follow a position persisted with an empty log and whose page writes land in order.
* `recover_loses_entry`: after `initialize_new` the next entry is not recovered.
-/

namespace SpdkKv

/-! ### The system -/

/-- The fields of the superblock that hold the position of the log. -/
structure AllocLogPosition where
  head : UInt32
  tail : UInt32
  sequence : UInt32
  deriving DecidableEq, Repr

/-- The log, its page on disk, the page writes in flight with the bytes they were submitted
with, oldest first, the persisted position, and the entries whose page write completed or
failed. -/
structure AllocLogState where
  mgr : AllocLogManager
  superblock : Option AllocLogPosition
  disk : AllocLogPage
  inFlight : List (AllocLogEntry × AllocLogPage)
  completed : List AllocLogEntry
  failed : List AllocLogEntry

/-- What can happen. -/
inductive AllocLogEvent
  /-- `write_entry` is called. -/
  | writeEntry (a : Allocation)
  /-- A page write in flight completes; `late` when the device read the page buffer, which
  is shared by all writes, only now. -/
  | pageWritten (i : ℕ) (late : Bool)
  /-- A page write in flight fails. -/
  | pageFailed (i : ℕ)
  /-- `reclaim` is called. -/
  | reclaim
  /-- The superblock is written with the current position. -/
  | persist
  /-- A crash, and a restart from the persisted position. -/
  | restart

/-- Re-initialising from a persisted position and loading the entries behind it. -/
def AllocLogPosition.recover (p : AllocLogPosition) (disk : AllocLogPage) :
    AllocLogManager × List AllocLogEntry :=
  (AllocLogManager.init p.head p.tail p.sequence).loadEntries disk p.sequence

namespace AllocLogState

/-- The state before `initialize_new`. -/
def start : AllocLogState :=
  ⟨AllocLogManager.init 0 0 0, none, fun _ => .zero, [], [], []⟩

/-- The step of an event. -/
def step (s : AllocLogState) : AllocLogEvent → Option AllocLogState
  | .writeEntry a =>
      match s.mgr.writeEntry a with
      | none => some s
      | some (entry, mgr) =>
          some { s with mgr := mgr, inFlight := s.inFlight ++ [(entry, mgr.page)] }
  | .pageWritten i late =>
      s.inFlight[i]?.map fun w =>
        { s with
          disk := if late then s.mgr.page else w.2
          inFlight := s.inFlight.eraseIdx i
          completed := s.completed ++ [w.1] }
  | .pageFailed i =>
      s.inFlight[i]?.map fun w =>
        { s with inFlight := s.inFlight.eraseIdx i, failed := s.failed ++ [w.1] }
  | .reclaim => some { s with mgr := s.mgr.reclaim }
  | .persist =>
      some { s with superblock := some ⟨s.mgr.head, s.mgr.tail, s.mgr.sequence⟩ }
  | .restart =>
      s.superblock.map fun p =>
        { s with mgr := (p.recover s.disk).1, inFlight := [], failed := [] }

end AllocLogState

/-- The log as a machine. -/
def allocLogMachine : Machine AllocLogState AllocLogEvent where
  step := AllocLogState.step

/-- Every entry not covered by the persisted position has been written or is in flight. -/
def NoneFailed (s : AllocLogState) : Prop :=
  ∀ p, s.superblock = some p → ∀ f ∈ s.failed, f.sequence ≤ p.sequence

/-- **When a step is harmless.** An entry is written at the place where a scan from the
persisted head expects it, with room left in the ring and in the counter; page writes land
in the order they were submitted, with the bytes they were submitted with. -/
def AllocLogSafe (s : AllocLogState) : AllocLogEvent → Prop
  | .writeEntry _ => s.mgr.isFull = false →
      s.mgr.sequence.toNat + 1 < 2 ^ 32 ∧ ∀ p, s.superblock = some p →
        s.mgr.tail - p.head = s.mgr.sequence - p.sequence ∧
        (s.mgr.tail - p.head).toNat < kAllocLogCapacity
  | .pageWritten i late => i = 0 ∧ (late = true → s.inFlight.length = 1) ∧ NoneFailed s
  | _ => True

/-! ### The invariant -/

/-- What has happened since the position `p` was persisted: the entries `log` were written,
and the page writes of the first `done` of them have completed. -/
structure Since (s : AllocLogState) (p : AllocLogPosition) (log : List AllocLogEntry)
    (done : ℕ) : Prop where
  done_le : done ≤ log.length
  consecutive : Consecutive p.sequence log
  sequence : s.mgr.sequence.toNat = p.sequence.toNat + log.length
  /-- Entries follow the head, once there are any. -/
  tail : log ≠ [] → s.mgr.tail = p.head + UInt32.ofNat log.length
  length_le : log.length ≤ kAllocLogCapacity
  page : Carries p.head p.sequence log log.length s.mgr.page
  disk : Carries p.head p.sequence log done s.disk
  completed : ∀ e, e ∈ s.completed ∧ p.sequence < e.sequence ↔ e ∈ log.take done
  /-- In flight are older entries, as long as no newer one has completed, and then, unless
  one failed, the rest of the log. -/
  inFlight : NoneFailed s → ∃ olds news, s.inFlight = olds ++ news ∧ (olds ≠ [] → done = 0) ∧
    (∀ w ∈ olds, w.1.sequence ≤ p.sequence ∧ Carries p.head p.sequence log 0 w.2) ∧
    news.map Prod.fst = log.drop done ∧
    ∀ j w, news[j]? = some w → Carries p.head p.sequence log (done + j + 1) w.2

/-- The invariant of a run. -/
structure AllocLogInv (s : AllocLogState) : Prop where
  /-- No page holds an entry newer than the counter. -/
  page_le : ∀ i, (s.mgr.page i).Valid → (s.mgr.page i).sequence ≤ s.mgr.sequence
  disk_le : ∀ i, (s.disk i).Valid → (s.disk i).sequence ≤ s.mgr.sequence
  inFlight_le : ∀ w ∈ s.inFlight, w.1.sequence ≤ s.mgr.sequence ∧
    ∀ i, (w.2 i).Valid → (w.2 i).sequence ≤ s.mgr.sequence
  completed_le : ∀ e ∈ s.completed, e.sequence ≤ s.mgr.sequence
  failed_le : ∀ e ∈ s.failed, e.sequence ≤ s.mgr.sequence
  since : ∀ p, s.superblock = some p → ∃ log done, Since s p log done

theorem zero_not_valid : ¬ AllocLogEntry.zero.Valid := by
  rintro ⟨h, -⟩
  exact absurd h (by decide)

theorem AllocLogInv.start : AllocLogInv AllocLogState.start where
  page_le := fun _ h => absurd h zero_not_valid
  disk_le := fun _ h => absurd h zero_not_valid
  inFlight_le := by simp [AllocLogState.start]
  completed_le := by simp [AllocLogState.start]
  failed_le := by simp [AllocLogState.start]
  since := by simp [AllocLogState.start]

/-! ### Persisting a position -/

/-- A page without newer entries carries nothing. -/
theorem carries_nil {head seq : UInt32} {page : AllocLogPage}
    (h : ∀ i, (page i).Valid → (page i).sequence ≤ seq) (log : List AllocLogEntry) :
    Carries head seq log 0 page :=
  ⟨fun j hj => absurd hj (Nat.not_lt_zero j), fun i _ hv => h i hv⟩

/-- Right after a position was persisted nothing has happened since. -/
theorem AllocLogInv.since_persist {s : AllocLogState} (h : AllocLogInv s) :
    Since { s with superblock := some ⟨s.mgr.head, s.mgr.tail, s.mgr.sequence⟩ }
      ⟨s.mgr.head, s.mgr.tail, s.mgr.sequence⟩ [] 0 where
  done_le := le_rfl
  consecutive := by rintro j e he; simp at he
  sequence := rfl
  tail := fun h => absurd rfl h
  length_le := Nat.zero_le _
  page := carries_nil h.page_le []
  disk := carries_nil h.disk_le []
  completed := by
    intro e
    constructor
    · rintro ⟨he, hlt⟩
      exact absurd hlt (UInt32.not_lt.mpr (h.completed_le e he))
    · intro he
      cases he
  inFlight := fun _ => ⟨s.inFlight, [], (List.append_nil _).symm, fun _ => rfl,
    fun w hw => ⟨(h.inFlight_le w hw).1, carries_nil (h.inFlight_le w hw).2 []⟩, rfl,
    fun j w hw => by simp at hw⟩

theorem AllocLogInv.persist {s : AllocLogState} (h : AllocLogInv s) :
    AllocLogInv { s with superblock := some ⟨s.mgr.head, s.mgr.tail, s.mgr.sequence⟩ } where
  page_le := h.page_le
  disk_le := h.disk_le
  inFlight_le := h.inFlight_le
  completed_le := h.completed_le
  failed_le := h.failed_le
  since := by
    rintro p hp
    obtain rfl := Option.some.inj hp
    exact ⟨[], 0, h.since_persist⟩

/-- `reclaim` only moves the head of the manager. -/
theorem AllocLogInv.reclaim {s : AllocLogState} (h : AllocLogInv s) :
    AllocLogInv { s with mgr := s.mgr.reclaim } where
  page_le := h.page_le
  disk_le := h.disk_le
  inFlight_le := h.inFlight_le
  completed_le := h.completed_le
  failed_le := h.failed_le
  since := by
    intro p hp
    obtain ⟨log, done, hs⟩ := h.since p hp
    exact ⟨log, done, hs.done_le, hs.consecutive, hs.sequence, hs.tail, hs.length_le, hs.page,
      hs.disk, hs.completed, hs.inFlight⟩

/-! ### Writing an entry -/

theorem writeEntry_eq_some {mgr : AllocLogManager} {a : Allocation} {e : AllocLogEntry}
    {mgr' : AllocLogManager} (h : mgr.writeEntry a = some (e, mgr')) :
    mgr.isFull = false ∧ e = AllocLogEntry.build a (mgr.sequence + 1) ∧
      mgr' = { mgr with
        sequence := mgr.sequence + 1
        page := Function.update mgr.page (allocLogSlot mgr.tail) e
        tail := mgr.tail + 1 } := by
  rw [AllocLogManager.writeEntry] at h
  split_ifs at h with hfull
  obtain ⟨rfl, rfl⟩ := Prod.mk.inj (Option.some.inj h)
  exact ⟨Bool.eq_false_iff.mpr hfull, rfl, rfl⟩

/-- A longer log is carried as far as the shorter one. -/
theorem Carries.append {head seq : UInt32} {log : List AllocLogEntry} {k : ℕ}
    {page : AllocLogPage} (h : Carries head seq log k page) (hk : k ≤ log.length)
    (log' : List AllocLogEntry) : Carries head seq (log ++ log') k page :=
  ⟨fun j hj => by rw [List.getElem?_append_left (by omega), h.held j hj], h.old⟩

/-- Writing the next entry into the slot behind the carried ones. -/
theorem Carries.update {head seq : UInt32} {log : List AllocLogEntry} {page : AllocLogPage}
    (h : Carries head seq log log.length page) (hlen : log.length < kAllocLogCapacity)
    (e : AllocLogEntry) : Carries head seq (log ++ [e]) (log.length + 1)
      (Function.update page (allocLogSlot (head + UInt32.ofNat log.length)) e) where
  held := by
    intro j hj
    rcases Nat.lt_succ_iff_lt_or_eq.mp hj with hlt | rfl
    · have hne : allocLogSlot (head + UInt32.ofNat j) ≠
          allocLogSlot (head + UInt32.ofNat log.length) := fun heq =>
        absurd (slot_add_inj (by omega) hlen heq) hlt.ne
      rw [Function.update_of_ne hne, List.getElem?_append_left hlt, h.held j hlt]
    · rw [Function.update_self, List.getElem?_append_right le_rfl, Nat.sub_self]
      rfl
  old := by
    intro i hi hv
    rw [Function.update_of_ne (hi _ (Nat.lt_succ_self _))] at hv ⊢
    exact h.old i (fun j hj => hi j (Nat.lt_succ_of_lt hj)) hv

theorem toNat_add_one {x : UInt32} (h : x.toNat + 1 < 2 ^ 32) : (x + 1).toNat = x.toNat + 1 := by
  rw [UInt32.toNat_add]
  exact Nat.mod_eq_of_lt h

/-- Where the next entry goes, when the entries since `p` follow its head. -/
theorem Since.tail_eq {s : AllocLogState} {p : AllocLogPosition} {log : List AllocLogEntry}
    {done : ℕ} (h : Since s p log done)
    (htail : s.mgr.tail - p.head = s.mgr.sequence - p.sequence) :
    s.mgr.tail = p.head + UInt32.ofNat log.length ∧
      (s.mgr.tail - p.head).toNat = log.length := by
  have hlen : log.length < 2 ^ 32 := lt_of_le_of_lt h.length_le (by decide)
  have hseq : s.mgr.sequence - p.sequence = UInt32.ofNat log.length := by
    have : s.mgr.sequence = p.sequence + UInt32.ofNat log.length := by
      refine UInt32.toNat_inj.mp ?_
      have hlt := s.mgr.sequence.toNat_lt
      rw [h.sequence] at hlt ⊢
      rw [UInt32.toNat_add, UInt32.toNat_ofNat', Nat.mod_eq_of_lt hlen, Nat.mod_eq_of_lt hlt]
    rw [this]
    grind
  rw [hseq] at htail
  refine ⟨by grind, ?_⟩
  rw [htail, UInt32.toNat_ofNat', Nat.mod_eq_of_lt hlen]

/-- A harmless write adds its entry to the log since `p`. -/
theorem Since.writeEntry {s : AllocLogState} {p : AllocLogPosition} {log : List AllocLogEntry}
    {done : ℕ} (h : Since s p log done) {e : AllocLogEntry} {a : Allocation}
    (he : e = AllocLogEntry.build a (s.mgr.sequence + 1))
    (hwrap : s.mgr.sequence.toNat + 1 < 2 ^ 32)
    (htail : s.mgr.tail - p.head = s.mgr.sequence - p.sequence)
    (hroom : (s.mgr.tail - p.head).toNat < kAllocLogCapacity) :
    Since { s with
        mgr := { s.mgr with
          sequence := s.mgr.sequence + 1
          page := Function.update s.mgr.page (allocLogSlot s.mgr.tail) e
          tail := s.mgr.tail + 1 }
        inFlight := s.inFlight ++
          [(e, Function.update s.mgr.page (allocLogSlot s.mgr.tail) e)] }
      p (log ++ [e]) done := by
  obtain ⟨htl, hcount⟩ := h.tail_eq htail
  rw [hcount] at hroom
  have hseq : e.sequence.toNat = p.sequence.toNat + log.length + 1 := by
    rw [he, AllocLogEntry.build_sequence, toNat_add_one hwrap, h.sequence]
  have hlen : (log ++ [e]).length = log.length + 1 := by simp
  have hpage : Carries p.head p.sequence (log ++ [e]) (log.length + 1)
      (Function.update s.mgr.page (allocLogSlot s.mgr.tail) e) := by
    rw [htl]
    exact h.page.update hroom e
  refine ⟨by rw [hlen]; exact Nat.le_succ_of_le h.done_le, ?_, ?_, ?_, ?_, ?_,
    h.disk.append h.done_le _, ?_, fun hnone => ?_⟩
  · intro j x hx
    rcases Nat.lt_or_ge j log.length with hlt | hge
    · rw [List.getElem?_append_left hlt] at hx
      exact h.consecutive j x hx
    · rw [List.getElem?_append_right hge] at hx
      obtain ⟨hj, rfl⟩ : j = log.length ∧ x = e := by
        cases hk : j - log.length with
        | zero =>
            rw [hk] at hx
            exact ⟨by omega, (Option.some.inj hx).symm⟩
        | succ k =>
            rw [hk] at hx
            simp at hx
      rw [hj]
      exact ⟨he ▸ AllocLogEntry.build_valid _ _, hseq⟩
  · dsimp only
    rw [hlen, toNat_add_one hwrap, h.sequence]
    omega
  · intro _
    dsimp only
    rw [hlen, htl]
    have : UInt32.ofNat (log.length + 1) = UInt32.ofNat log.length + 1 := UInt32.ofNat_add ..
    grind
  · rw [hlen]
    exact hroom
  · rw [hlen]
    exact hpage
  · intro x
    rw [List.take_append_of_le_length h.done_le]
    exact h.completed x
  · obtain ⟨olds, news, hin, hfirst, holds, hnews, himg⟩ := h.inFlight hnone
    refine ⟨olds, news ++ [(e, _)], by rw [hin, List.append_assoc], hfirst, fun w hw => ⟨(holds w hw).1,
      (holds w hw).2.append (Nat.zero_le _) _⟩, ?_, fun j w hw => ?_⟩
    · rw [List.map_append, hnews, List.drop_append_of_le_length h.done_le]
      rfl
    · have hnlen : news.length = log.length - done := by
        rw [← List.length_map (f := Prod.fst), hnews, List.length_drop]
      have hdone := h.done_le
      rcases Nat.lt_or_ge j news.length with hlt | hge
      · rw [List.getElem?_append_left hlt] at hw
        exact (himg j w hw).append (by omega) _
      · rw [List.getElem?_append_right hge] at hw
        cases hk : j - news.length with
        | zero =>
            rw [hk] at hw
            obtain rfl := Option.some.inj hw
            rw [show done + j + 1 = log.length + 1 by omega]
            exact hpage
        | succ k =>
            rw [hk] at hw
            simp at hw

/-! ### Page writes -/

theorem mem_take_succ {log : List AllocLogEntry} {k : ℕ} {x e : AllocLogEntry}
    (hx : log[k]? = some x) : e ∈ log.take (k + 1) ↔ e ∈ log.take k ∨ e = x := by
  rw [List.take_add_one, hx, List.mem_append, Option.mem_toList, Option.some_inj, @eq_comm _ x e]

/-- A page write that lands in order, with the bytes it was submitted with, extends the
entries that have completed. -/
theorem Since.pageWritten {s : AllocLogState} {p : AllocLogPosition}
    {log : List AllocLogEntry} {done : ℕ} (h : Since s p log done) (late : Bool)
    (hnone : NoneFailed s) {w : AllocLogEntry × AllocLogPage}
    {rest : List (AllocLogEntry × AllocLogPage)} (hw : s.inFlight = w :: rest) (hlate : late = true → rest = []) :
    ∃ done', Since { s with
      disk := if late then s.mgr.page else w.2
      inFlight := rest
      completed := s.completed ++ [w.1] } p log done' := by
  obtain ⟨olds, news, hin, hfirst, holds, hnews, himg⟩ := h.inFlight hnone
  rw [hw] at hin
  cases olds with
  | cons o olds =>
      obtain ⟨rfl, hrest⟩ := List.cons.inj hin
      have hdone : done = 0 := hfirst (List.cons_ne_nil _ _)
      have hold := holds w List.mem_cons_self
      have hdisk : Carries p.head p.sequence log done (if late then s.mgr.page else w.2) := by
        split_ifs with hl
        · have hnil : news = [] := (List.append_eq_nil_iff.mp (hrest ▸ hlate hl)).2
          rw [hnil, List.map_nil, eq_comm, List.drop_eq_nil_iff] at hnews
          rw [show done = log.length from le_antisymm h.done_le hnews]
          exact h.page
        · rw [hdone]
          exact hold.2
      refine ⟨done, h.done_le, h.consecutive, h.sequence, h.tail, h.length_le, h.page, hdisk,
        fun e => ?_, fun _ => ⟨olds, news, hrest, fun _ => hdone,
          fun x hx => holds x (List.mem_cons_of_mem _ hx), hnews, himg⟩⟩
      rw [List.mem_append, List.mem_singleton, or_and_right, ← h.completed e]
      refine or_iff_left ?_
      rintro ⟨rfl, hlt⟩
      exact absurd hlt (UInt32.not_lt.mpr hold.1)
  | nil =>
      rw [List.nil_append] at hin
      subst hin
      obtain ⟨hget, hrest⟩ : log[done]? = some w.1 ∧ rest.map Prod.fst = log.drop (done + 1) := by
        rw [List.map_cons] at hnews
        constructor
        · rw [← List.head?_drop, ← hnews, List.head?_cons]
        · rw [← List.tail_drop, ← hnews, List.tail_cons]
      have hlt : done < log.length := (List.getElem?_eq_some_iff.mp hget).1
      have hdisk : Carries p.head p.sequence log (done + 1)
          (if late then s.mgr.page else w.2) := by
        split_ifs with hl
        · rw [hlate hl, List.map_nil, eq_comm, List.drop_eq_nil_iff] at hrest
          rw [show done + 1 = log.length by omega]
          exact h.page
        · exact himg 0 w rfl
      refine ⟨done + 1, hlt, h.consecutive, h.sequence, h.tail, h.length_le, h.page, hdisk,
        fun e => ?_, fun _ => ⟨[], rest, rfl, fun h => absurd rfl h, by simp, hrest,
          fun j x hx => ?_⟩⟩
      · rw [List.mem_append, List.mem_singleton, or_and_right, h.completed e,
          mem_take_succ hget]
        refine or_congr_right (and_iff_left_of_imp ?_)
        rintro rfl
        rw [UInt32.lt_iff_toNat_lt, (h.consecutive _ _ hget).2]
        omega
      · have := himg (j + 1) x (by rwa [List.getElem?_cons_succ])
        rwa [show done + (j + 1) + 1 = done + 1 + j + 1 by omega] at this

/-- A page write that fails. -/
theorem Since.pageFailed {s : AllocLogState} {p : AllocLogPosition} {log : List AllocLogEntry}
    {done : ℕ} (hp : s.superblock = some p) (h : Since s p log done) {i : ℕ}
    {w : AllocLogEntry × AllocLogPage} (hw : s.inFlight[i]? = some w) :
    Since { s with inFlight := s.inFlight.eraseIdx i, failed := s.failed ++ [w.1] }
      p log done := by
  refine ⟨h.done_le, h.consecutive, h.sequence, h.tail, h.length_le, h.page, h.disk,
    h.completed, fun hnone => ?_⟩
  have hold : w.1.sequence ≤ p.sequence := hnone p hp w.1 (by simp)
  obtain ⟨olds, news, hin, hfirst, holds, hnews, himg⟩ := h.inFlight fun q hq f hf =>
    hnone q hq f (List.mem_append_left _ hf)
  -- the failed write is one of the older ones, since those of the log are newer
  have hi : i < olds.length := by
    by_contra hge
    rw [hin, List.getElem?_append_right (not_lt.mp hge)] at hw
    have hmem : (news.map Prod.fst)[i - olds.length]? = some w.1 := by
      rw [List.getElem?_map, hw, Option.map_some]
    rw [hnews, List.getElem?_drop] at hmem
    have := (h.consecutive _ _ hmem).2
    rw [UInt32.le_iff_toNat_le] at hold
    omega
  refine ⟨olds.eraseIdx i, news, ?_, fun hne => hfirst ?_,
    fun x hx => holds x (List.eraseIdx_subset hx), hnews, himg⟩
  · dsimp only
    rw [hin, List.eraseIdx_append_of_lt_length hi]
  · rintro rfl
    exact hne rfl

/-! ### Restarting -/

/-- What a restart finds and where it goes on. -/
theorem Since.recover {s : AllocLogState} {p : AllocLogPosition} {log : List AllocLogEntry}
    {done : ℕ} (h : Since s p log done) :
    (p.recover s.disk).2 = log.take done ∧
      (p.recover s.disk).1.sequence.toNat = p.sequence.toNat + done ∧
      (p.recover s.disk).1.head = p.head ∧
      (p.recover s.disk).1.tail = p.head + UInt32.ofNat done ∧
      (p.recover s.disk).1.page = s.disk := by
  have hscan := scanEntries_eq_take h.disk h.consecutive (h.done_le.trans h.length_le)
  have hlen : (log.take done).length = done := by
    rw [List.length_take]
    exact min_eq_left h.done_le
  rw [AllocLogPosition.recover, AllocLogManager.loadEntries, AllocLogManager.init, hscan]
  refine ⟨rfl, ?_, rfl, by rw [hlen], rfl⟩
  dsimp only
  rcases Nat.eq_zero_or_pos done with rfl | hpos
  · rw [List.take_zero]
    rfl
  · have hdone := h.done_le
    obtain ⟨last, hget⟩ : ∃ last, log[done - 1]? = some last :=
      ⟨_, List.getElem?_eq_getElem (by omega)⟩
    have hlast : (log.take done).getLast? = some last := by
      rw [List.getLast?_eq_getElem?, hlen, List.getElem?_take_of_lt (by omega), hget]
    rw [hlast, Option.map_some, Option.getD_some, (h.consecutive _ _ hget).2]
    omega

/-- Entries on a page that carries part of the log are not newer than that part. -/
theorem Since.disk_le {s : AllocLogState} {p : AllocLogPosition} {log : List AllocLogEntry}
    {done : ℕ} (h : Since s p log done) (i : Fin kAllocLogCapacity) (hv : (s.disk i).Valid) :
    (s.disk i).sequence.toNat ≤ p.sequence.toNat + done := by
  by_cases hi : ∃ j < done, i = allocLogSlot (p.head + UInt32.ofNat j)
  · obtain ⟨j, hj, rfl⟩ := hi
    have := (h.consecutive j _ (h.disk.held j hj)).2
    omega
  · have := h.disk.old i (fun j hj heq => hi ⟨j, hj, heq⟩) hv
    rw [UInt32.le_iff_toNat_le] at this
    omega

theorem Since.completed_le {s : AllocLogState} {p : AllocLogPosition}
    {log : List AllocLogEntry} {done : ℕ} (h : Since s p log done) {e : AllocLogEntry}
    (he : e ∈ s.completed) : e.sequence.toNat ≤ p.sequence.toNat + done := by
  by_cases hlt : p.sequence < e.sequence
  · obtain ⟨j, hj⟩ := List.mem_iff_getElem?.mp ((h.completed e).mp ⟨he, hlt⟩)
    have hjd : j < done := by
      by_contra hge
      rw [List.getElem?_take_eq_none (not_lt.mp hge)] at hj
      cases hj
    rw [List.getElem?_take_of_lt hjd] at hj
    have := (h.consecutive j e hj).2
    omega
  · rw [UInt32.lt_iff_toNat_lt] at hlt
    omega

/-- A restart keeps the invariant: the log since `p` shrinks to what was recovered. -/
theorem AllocLogInv.restart {s : AllocLogState} (h : AllocLogInv s) {p : AllocLogPosition}
    (hp : s.superblock = some p) :
    AllocLogInv { s with mgr := (p.recover s.disk).1, inFlight := [], failed := [] } := by
  obtain ⟨log, done, hs⟩ := h.since p hp
  obtain ⟨-, hseq, hhead, htail, hpage⟩ := hs.recover
  have hlen : (log.take done).length = done := by
    rw [List.length_take]
    exact min_eq_left hs.done_le
  have hdisk : Carries p.head p.sequence (log.take done) done s.disk :=
    ⟨fun j hj => by rw [List.getElem?_take_of_lt hj, hs.disk.held j hj], hs.disk.old⟩
  refine ⟨fun i hv => ?_, fun i hv => ?_, by simp, fun e he => ?_, by simp, fun q hq => ?_⟩
  · dsimp only at hv ⊢
    rw [hpage] at hv ⊢
    rw [UInt32.le_iff_toNat_le, hseq]
    exact hs.disk_le i hv
  · rw [UInt32.le_iff_toNat_le, hseq]
    exact hs.disk_le i hv
  · rw [UInt32.le_iff_toNat_le, hseq]
    exact hs.completed_le he
  · obtain rfl : q = p := Option.some.inj (hq.symm.trans hp)
    refine ⟨log.take done, done, hlen.ge, ?_, ?_, fun _ => ?_, ?_, ?_, hdisk, ?_, fun _ =>
      ⟨[], [], rfl, fun h => absurd rfl h, by simp, ?_, by simp⟩⟩
    · intro j e he
      refine hs.consecutive j e ?_
      rwa [List.getElem?_take_of_lt] at he
      by_contra hge
      rw [List.getElem?_take_eq_none (not_lt.mp hge)] at he
      cases he
    · rw [hlen]
      exact hseq
    · rw [hlen]
      exact htail
    · rw [hlen]
      exact hs.done_le.trans hs.length_le
    · rw [hlen]
      dsimp only
      rw [hpage]
      exact hdisk
    · intro e
      rw [List.take_take, min_self]
      exact hs.completed e
    · rw [List.map_nil, List.drop_of_length_le hlen.le]

/-! ### Runs -/

/-- **What one step keeps**: a harmless step keeps the invariant. -/
theorem AllocLogInv.step {s s' : AllocLogState} {ev : AllocLogEvent} (h : AllocLogInv s)
    (hsafe : AllocLogSafe s ev) (hstep : s.step ev = some s') : AllocLogInv s' := by
  cases ev with
  | writeEntry a =>
      rw [AllocLogState.step] at hstep
      split at hstep
      · obtain rfl := Option.some.inj hstep
        exact h
      · next e mgr hw =>
          obtain rfl := Option.some.inj hstep
          obtain ⟨hfull, he, rfl⟩ := writeEntry_eq_some hw
          obtain ⟨hwrap, hpos⟩ := hsafe hfull
          have hgrow : ∀ x : UInt32, x ≤ s.mgr.sequence → x ≤ s.mgr.sequence + 1 := by
            intro x hx
            rw [UInt32.le_iff_toNat_le] at hx ⊢
            rw [toNat_add_one hwrap]
            omega
          have hpage : ∀ i, (Function.update s.mgr.page (allocLogSlot s.mgr.tail) e i).Valid →
              (Function.update s.mgr.page (allocLogSlot s.mgr.tail) e i).sequence ≤
                s.mgr.sequence + 1 := by
            intro i hv
            by_cases hi : i = allocLogSlot s.mgr.tail
            · subst hi
              rw [Function.update_self, he]
              exact UInt32.le_refl _
            · rw [Function.update_of_ne hi] at hv ⊢
              exact hgrow _ (h.page_le i hv)
          refine ⟨hpage, fun i hv => hgrow _ (h.disk_le i hv), fun w hw => ?_,
            fun x hx => hgrow _ (h.completed_le x hx), fun x hx => hgrow _ (h.failed_le x hx),
            fun p hp => ?_⟩
          · rcases List.mem_append.mp hw with hw | hw
            · exact ⟨hgrow _ (h.inFlight_le w hw).1, fun i hv =>
                hgrow _ ((h.inFlight_le w hw).2 i hv)⟩
            · obtain rfl := List.mem_singleton.mp hw
              exact ⟨he ▸ UInt32.le_refl _, hpage⟩
          · obtain ⟨log, done, hs⟩ := h.since p hp
            obtain ⟨htail, hroom⟩ := hpos p hp
            exact ⟨_, done, hs.writeEntry he hwrap htail hroom⟩
  | pageWritten i late =>
      obtain ⟨rfl, hlate, hnone⟩ := hsafe
      obtain ⟨w, hw, rfl⟩ := Option.map_eq_some_iff.mp hstep
      obtain ⟨rest, hin⟩ : ∃ rest, s.inFlight = w :: rest := by
        cases hl : s.inFlight with
        | nil => rw [hl] at hw; cases hw
        | cons x rest =>
            rw [hl] at hw
            exact ⟨rest, by rw [Option.some.inj hw]⟩
      have herase : s.inFlight.eraseIdx 0 = rest := by rw [hin]; rfl
      rw [herase]
      have hle := h.inFlight_le w (by rw [hin]; exact List.mem_cons_self)
      refine ⟨h.page_le, fun i hv => ?_, fun x hx => h.inFlight_le x (by
        rw [hin]; exact List.mem_cons_of_mem _ hx), fun x hx => ?_, h.failed_le, fun p hp => ?_⟩
      · dsimp only at hv ⊢
        split_ifs at hv ⊢ with hl
        · exact h.page_le i hv
        · exact hle.2 i hv
      · rcases List.mem_append.mp hx with hx | hx
        · exact h.completed_le x hx
        · rw [List.mem_singleton.mp hx]
          exact hle.1
      · obtain ⟨log, done, hs⟩ := h.since p hp
        obtain ⟨done', hs'⟩ := hs.pageWritten late hnone hin fun hl => by
          have := hlate hl
          rw [hin, List.length_cons] at this
          exact List.length_eq_zero_iff.mp (by omega)
        exact ⟨log, done', hs'⟩
  | pageFailed i =>
      obtain ⟨w, hw, rfl⟩ := Option.map_eq_some_iff.mp hstep
      have hle := h.inFlight_le w (List.mem_of_getElem? hw)
      refine ⟨h.page_le, h.disk_le, fun x hx => h.inFlight_le x (List.eraseIdx_subset hx),
        h.completed_le, fun x hx => ?_, fun p hp => ?_⟩
      · rcases List.mem_append.mp hx with hx | hx
        · exact h.failed_le x hx
        · rw [List.mem_singleton.mp hx]
          exact hle.1
      · obtain ⟨log, done, hs⟩ := h.since p hp
        exact ⟨log, done, hs.pageFailed (show s.superblock = some p from hp) hw⟩
  | reclaim =>
      obtain rfl := Option.some.inj hstep
      exact h.reclaim
  | persist =>
      obtain rfl := Option.some.inj hstep
      exact h.persist
  | restart =>
      obtain ⟨p, hp, rfl⟩ := Option.map_eq_some_iff.mp hstep
      exact h.restart hp

/-- Recovery from the persisted position returns exactly the newer entries whose page write
completed, each once and in increasing order, and the next write overwrites none of them. -/
structure RecoversExactly (s : AllocLogState) (p : AllocLogPosition) : Prop where
  sorted : (p.recover s.disk).2.Pairwise fun a b => a.sequence < b.sequence
  mem_iff : ∀ e, e ∈ (p.recover s.disk).2 ↔ e ∈ s.completed ∧ p.sequence < e.sequence
  kept : ∀ a e mgr, (p.recover s.disk).1.writeEntry a = some (e, mgr) →
    ∀ x ∈ (p.recover s.disk).2, ∃ i, mgr.page i = x

/-- The invariant gives exact recovery. -/
theorem Since.recoversExactly {s : AllocLogState} {p : AllocLogPosition}
    {log : List AllocLogEntry} {done : ℕ} (h : Since s p log done) : RecoversExactly s p := by
  obtain ⟨hres, hseq, hhead, htail, hpage⟩ := h.recover
  refine ⟨?_, fun e => ?_, fun a e mgr hw x hx => ?_⟩
  · rw [hres, List.pairwise_iff_getElem]
    intro i j hi hj hij
    rw [List.getElem_take, List.getElem_take, UInt32.lt_iff_toNat_lt,
      (h.consecutive i _ (List.getElem?_eq_getElem _)).2,
      (h.consecutive j _ (List.getElem?_eq_getElem _)).2]
    omega
  · rw [hres]
    exact (h.completed e).symm
  · obtain ⟨hfull, -, rfl⟩ := writeEntry_eq_some hw
    have hdone : done < kAllocLogCapacity := by
      have hused : (p.recover s.disk).1.usedCount = done := by
        rw [AllocLogManager.usedCount, hhead, htail]
        have : p.head + UInt32.ofNat done - p.head = UInt32.ofNat done := by grind
        rw [this, UInt32.toNat_ofNat', Nat.mod_eq_of_lt]
        exact lt_of_le_of_lt (h.done_le.trans h.length_le) (by decide)
      rw [AllocLogManager.isFull, hused, decide_eq_false_iff_not] at hfull
      exact not_le.mp hfull
    rw [hres] at hx
    obtain ⟨j, hj⟩ := List.mem_iff_getElem?.mp hx
    have hjd : j < done := by
      by_contra hge
      rw [List.getElem?_take_eq_none (not_lt.mp hge)] at hj
      cases hj
    rw [List.getElem?_take_of_lt hjd, h.disk.held j hjd] at hj
    refine ⟨allocLogSlot (p.head + UInt32.ofNat j), ?_⟩
    dsimp only
    rw [htail, hpage, Function.update_of_ne, Option.some.inj hj]
    exact fun heq => absurd (slot_add_inj (by omega) hdone heq) hjd.ne

/-- **Recovery of the allocation log is exact** in every state that a run of harmless steps
reaches: a crash there, followed by a restart from the persisted position, finds exactly the
newer entries whose page write completed and goes on behind them. -/
theorem recover_exact {events : List AllocLogEvent} {s : AllocLogState}
    (hsafe : allocLogMachine.Meets AllocLogSafe AllocLogState.start events)
    (hrun : allocLogMachine.run AllocLogState.start events = some s)
    {p : AllocLogPosition} (hp : s.superblock = some p) : RecoversExactly s p := by
  have h := allocLogMachine.run_invariant AllocLogInv
    (fun _ _ _ h hsafe hstep => h.step hsafe hstep) AllocLogInv.start hsafe hrun
  obtain ⟨log, done, hs⟩ := h.since p hp
  exact hs.recoversExactly

/-! ### Two runs -/

/-- The allocation of the blob of a file. -/
def sampleAllocation (fileId : UInt16) : Allocation := ⟨100, fileId, 4096, 0⟩

theorem noneFailed_of_nil {s : AllocLogState} (h : s.failed = []) : NoneFailed s := by
  intro p _ f hf
  rw [h] at hf
  cases hf

/-- `initialize_new`, a checkpoint, and one more file. -/
def sampleLogEvents : List AllocLogEvent :=
  [.writeEntry (sampleAllocation 0), .pageWritten 0 false, .persist, .reclaim, .persist,
    .writeEntry (sampleAllocation 1), .pageWritten 0 false]

/-- The entry of the file after the checkpoint is recovered. -/
theorem recover_exact_after_checkpoint :
    ∃ s p, allocLogMachine.run AllocLogState.start sampleLogEvents = some s ∧
      s.superblock = some p ∧ RecoversExactly s p := by
  refine ⟨_, _, rfl, rfl, recover_exact
    (show allocLogMachine.Meets AllocLogSafe AllocLogState.start sampleLogEvents from ?_)
    rfl rfl⟩
  refine .cons _ (fun _ => ⟨by decide, fun p hp => by cases hp⟩) rfl ?_
  refine .cons _ ⟨rfl, by decide, noneFailed_of_nil rfl⟩ rfl ?_
  refine .cons _ trivial rfl (.cons _ trivial rfl (.cons _ trivial rfl ?_))
  refine .cons _ (fun _ => ⟨by decide, fun p hp => ?_⟩) rfl ?_
  · obtain rfl := Option.some.inj hp
    exact ⟨by decide, by decide⟩
  · exact .cons _ ⟨rfl, by decide, noneFailed_of_nil rfl⟩ rfl trivial

/-- **A lost entry**: after `initialize_new` has persisted the position without reclaiming
the log, the entry of the next file is written, and recovery does not return it. -/
theorem recover_loses_entry :
    ∃ s p, allocLogMachine.run AllocLogState.start
      [.writeEntry (sampleAllocation 0), .pageWritten 0 false, .persist,
        .writeEntry (sampleAllocation 1), .pageWritten 0 false] = some s ∧
      s.superblock = some p ∧
      (∃ e ∈ s.completed, p.sequence < e.sequence) ∧ (p.recover s.disk).2 = [] := by
  refine ⟨_, _, rfl, rfl, ⟨AllocLogEntry.build (sampleAllocation 1) (0 + 1 + 1), ?_, ?_⟩, ?_⟩
  · exact List.mem_append_right _ (List.mem_singleton.mpr rfl)
  · decide
  · decide +kernel

end SpdkKv
