import SpdkKv.AsyncTrace
import SpdkKv.Settle

/-!
# When Asynchronous Writes Settle

The blob IOs of `put_async`, `put_buffered` and `delete_async` complete in any order, on
five completion paths. All of them end in the index, where puts are resolved by their
sequences and a delete removes whatever entry is there.

## Main results

* `MemIndex.Wf.stored_trace`: a run of the engine runs the register of every key.
* `completions_settle_iff`: **when the newest operation on every key decides** — exactly
  when, for the newest put of a key, a delete completes after it if and only if a delete is
  newer than it.
* `late_delete_removes_newer_put`: a delete that completes after a newer put removes it.
-/

namespace SpdkKv

variable {n : ℕ}

/-! ### The index over a run -/

/-- Every call of the trace is one that the index accepts. -/
def AcceptedTrace : MemIndex n → List WriteEffect → Prop
  | _, [] => True
  | m, .completed c :: effs => m.AcceptedOp c.call ∧ AcceptedTrace (m.applyOp c.call) effs
  | m, .issued _ :: effs => AcceptedTrace m.allocateSequence.1 effs
  | m, .failed _ :: effs => AcceptedTrace m effs

theorem MemIndex.Wf.allocateSequence {m : MemIndex n} (hm : m.Wf) :
    m.allocateSequence.1.Wf where
  unused := hm.unused
  tag_eq := hm.tag_eq
  path := hm.path
  inj := hm.inj

/-- **A run of the engine runs the register of every key** over the calls of its
completions. -/
theorem MemIndex.Wf.stored_trace {m : MemIndex n} (hm : m.Wf) {effs : List WriteEffect}
    (hacc : AcceptedTrace m effs) :
    (effs.foldl MemIndex.applyEffect m).Wf ∧
      ∀ key, (effs.foldl MemIndex.applyEffect m).stored key =
        newestEntry.run id (((completedWrites effs).map CompletedWrite.call).filterMap
          (IndexOp.cmdFor key)) (m.stored key) := by
  induction effs generalizing m with
  | nil => exact ⟨hm, fun _ => rfl⟩
  | cons eff effs ih =>
      cases eff with
      | issued op => exact ih hm.allocateSequence hacc
      | failed op => exact ih hm hacc
      | completed c =>
          obtain ⟨hwf, hst⟩ := ih (hm.applyOp hacc.1.orderly) hacc.2
          refine ⟨hwf, fun key => (hst key).trans ?_⟩
          rw [hm.stored_applyOp hacc.1, show completedWrites (.completed c :: effs) =
            c :: completedWrites effs from rfl, List.map_cons, List.filterMap_cons]
          cases c.call.cmdFor key <;> rfl

/-! ### Sequences of a run -/

/-- The operations of a run have consecutive sequences. -/
theorem Sequenced.getElem {g : UInt32} {effs : List WriteEffect} (h : Sequenced g effs)
    (i : ℕ) (hi : i < (issuedOps effs).length) :
    ((issuedOps effs)[i]).sequence = g + UInt32.ofNat (i + 1) := by
  induction effs generalizing g i with
  | nil => cases hi
  | cons eff effs ih =>
      cases eff with
      | completed c => exact ih h i hi
      | failed op => exact ih h i hi
      | issued op =>
          cases i with
          | zero => exact h.1
          | succ i =>
              have hlt : i + 1 < (issuedOps effs).length + 1 := hi
              have hsucc : UInt32.ofNat (i + 1 + 1) = UInt32.ofNat (i + 1) + 1 :=
                UInt32.ofNat_add _ _
              rw [hsucc, UInt32.add_comm _ 1, ← UInt32.add_assoc]
              exact ih h.2 i (Nat.lt_of_succ_lt_succ hlt)

/-- The distance of an operation of a run from the counter at its start. -/
theorem Sequenced.exists_distance {g : UInt32} {effs : List WriteEffect}
    (h : Sequenced g effs) (hlt : (issuedOps effs).length < 2 ^ 31) {op : WriteOp}
    (hop : op ∈ issuedOps effs) :
    ∃ i, ∃ hi : i < (issuedOps effs).length, (issuedOps effs)[i] = op ∧
      (op.sequence - g).toNat = i + 1 := by
  obtain ⟨i, hi, rfl⟩ := List.getElem_of_mem hop
  refine ⟨i, hi, rfl, ?_⟩
  have hsub : g + UInt32.ofNat (i + 1) - g = UInt32.ofNat (i + 1) := by grind
  rw [h.getElem i hi, hsub, UInt32.toNat_ofNat_of_lt' (lt_trans (by omega)
    (show 2 ^ 31 < UInt32.size by decide))]

/-! ### Completions as arrivals -/

/-- The entry of a completed put. -/
def CompletedWrite.entry (c : CompletedWrite) : MemIndexEntry :=
  match c.call with
  | .upsert e => e
  | .remove _ => MemIndexEntry.zero

/-- The completions of a run as they reach the index. -/
def completions : Arrivals CompletedWrite where
  key := fun c => c.op.key
  sequence := fun c => c.op.sequence
  tomb := fun c => c.op.isDelete
  entry := CompletedWrite.entry

theorem completions_call (c : CompletedWrite) : completions.call c = c.call := by
  have hp := c.performs
  change (if c.op.isDelete = true then IndexOp.remove c.op.key else .upsert c.entry) = c.call
  rw [CompletedWrite.entry]
  cases hc : c.call with
  | upsert e =>
      rw [hc] at hp
      rw [hp.1, if_neg Bool.false_ne_true]
  | remove key =>
      rw [hc] at hp
      rw [hp.1, if_pos rfl, hp.2]

/-- A completed put brings the entry of its operation. -/
theorem CompletedWrite.entry_eq (c : CompletedWrite) (h : c.op.isDelete = false) :
    c.entry.key = c.op.key ∧ c.entry.sequence = c.op.sequence ∧ c.entry.deleted = false := by
  have hp := c.performs
  rw [entry]
  cases hc : c.call with
  | upsert e =>
      rw [hc] at hp
      exact hp.2
  | remove key =>
      rw [hc] at hp
      exact absurd (h.symm.trans hp.1) Bool.false_ne_true

/-! ### The newest operation on a key -/

/-- The sequences of `count` further operations and those in the index lie within a window
shorter than `2 ^ 31`. -/
structure SequencesInWindow (m : MemIndex n) (count : ℕ) : Prop where
  issued : count < 2 ^ 31
  stored : ∀ key e, m.stored key = some e →
    (m.globalSequence - e.sequence).toNat + count < 2 ^ 31

/-- The operation is one of the list and none on its key is newer. -/
def NewestOp (ops : List WriteOp) (w : WriteOp) : Prop :=
  w ∈ ops ∧ ∀ v ∈ ops, v.key = w.key → ¬ MemIndex.sequenceNewer v.sequence w.sequence

/-- The operation is a put of the list and no put on its key is newer. -/
def NewestPutOp (ops : List WriteOp) (p : WriteOp) : Prop :=
  p ∈ ops ∧ p.isDelete = false ∧ ∀ v ∈ ops, v.key = p.key → v.isDelete = false →
    ¬ MemIndex.sequenceNewer v.sequence p.sequence

/-- A delete of the key completes after the put. -/
def DeleteCompletesAfter (cs : List CompletedWrite) (p : WriteOp) : Prop :=
  ∃ c d, [c, d].Sublist cs ∧ c.op = p ∧ d.op.key = p.key ∧ d.op.isDelete = true

/-- A delete of the key is newer than the put. -/
def DeleteNewer (ops : List WriteOp) (p : WriteOp) : Prop :=
  ∃ d ∈ ops, d.key = p.key ∧ d.isDelete = true ∧ MemIndex.sequenceNewer d.sequence p.sequence

/-- The index shows the outcome of the newest operation on every key: nothing for a delete,
the entry that the put brought otherwise. -/
def ShowsNewestOps (m : MemIndex n) (ops : List WriteOp) (cs : List CompletedWrite) : Prop :=
  ∀ w, NewestOp ops w →
    if w.isDelete then m.findEntry w.key = none
    else ∃ c ∈ cs, c.op = w ∧ m.findEntry w.key = some (MemIndex.tagged w.key c.entry)

section Settling

variable {start : Engine n} {s : AsyncSystem n} (hdoes : start.Does s.trace s.engine)
  (hwin : SequencesInWindow start.memIndex (issuedOps s.trace).length)
include hdoes hwin

/-- Operations with one sequence are one operation. -/
theorem op_eq_of_sequence_eq {v w : WriteOp} (hv : v ∈ issuedOps s.trace)
    (hw : w ∈ issuedOps s.trace) (h : v.sequence = w.sequence) : v = w := by
  obtain ⟨i, hi, rfl, hdi⟩ := hdoes.sequenced.exists_distance hwin.issued hv
  obtain ⟨j, hj, rfl, hdj⟩ := hdoes.sequenced.exists_distance hwin.issued hw
  rw [h] at hdi
  obtain rfl : i = j := by omega
  rfl

variable (hops : ∀ w, w ∈ issuedOps s.trace ↔ ∃ c ∈ completedWrites s.trace, c.op = w)
include hops

/-- The completions are valid arrivals at the index of the start. -/
theorem completions_valid : completions.Valid (completedWrites s.trace)
    (fun _ => start.memIndex.globalSequence) start.memIndex.stored where
  entry_eq := fun c _ ht => c.entry_eq ht
  window := by
    intro c hc
    obtain ⟨i, hi, -, hd⟩ := hdoes.sequenced.exists_distance hwin.issued
      ((hops c.op).mpr ⟨c, hc, rfl⟩)
    have := hwin.issued
    change (c.op.sequence - start.memIndex.globalSequence).toNat < _
    omega
  older := by
    intro c hc e he
    obtain ⟨i, hi, -, hd⟩ := hdoes.sequenced.exists_distance hwin.issued
      ((hops c.op).mpr ⟨c, hc, rfl⟩)
    have hlt := hwin.stored _ e he
    -- the way from the stored sequence leads through the counter at the start
    have hsplit : c.op.sequence - e.sequence = (c.op.sequence -
        start.memIndex.globalSequence) + (start.memIndex.globalSequence - e.sequence) := by
      grind
    have hnat : (c.op.sequence - e.sequence).toNat =
        (i + 1) + (start.memIndex.globalSequence - e.sequence).toNat := by
      rw [hsplit, UInt32.toNat_add, hd, Nat.mod_eq_of_lt (by omega)]
    have hzero : e.sequence - e.sequence = 0 := by grind
    change MemIndex.sequenceNewer c.op.sequence e.sequence = true
    refine (@sequenceNewer_iff e.sequence _ _ (by omega) ?_).mpr ?_
    · rw [hzero]
      decide
    · rw [hzero, hnat]
      exact Nat.lt_of_lt_of_le Nat.zero_lt_one (by omega)
  copies := fun c hc d hd _ h => congrArg WriteOp.isDelete (op_eq_of_sequence_eq hdoes hwin
    ((hops c.op).mpr ⟨c, hc, rfl⟩) ((hops d.op).mpr ⟨d, hd, rfl⟩) h)

omit hdoes hwin in
theorem completions_isNewest_iff {c : CompletedWrite} (hc : c ∈ completedWrites s.trace) :
    completions.IsNewest (completedWrites s.trace) c ↔ NewestOp (issuedOps s.trace) c.op := by
  constructor
  · rintro ⟨-, h⟩
    refine ⟨(hops c.op).mpr ⟨c, hc, rfl⟩, fun v hv => ?_⟩
    obtain ⟨d, hd, rfl⟩ := (hops v).mp hv
    exact h d hd
  · rintro ⟨-, h⟩
    exact ⟨hc, fun d hd => h d.op ((hops d.op).mpr ⟨d, hd, rfl⟩)⟩

omit hdoes hwin in
theorem completions_isNewestPut_iff {c : CompletedWrite} (hc : c ∈ completedWrites s.trace) :
    completions.IsNewestPut (completedWrites s.trace) c ↔
      NewestPutOp (issuedOps s.trace) c.op := by
  constructor
  · rintro ⟨-, ht, h⟩
    refine ⟨(hops c.op).mpr ⟨c, hc, rfl⟩, ht, fun v hv => ?_⟩
    obtain ⟨d, hd, rfl⟩ := (hops v).mp hv
    exact h d hd
  · rintro ⟨-, ht, h⟩
    exact ⟨hc, ht, fun d hd => h d.op ((hops d.op).mpr ⟨d, hd, rfl⟩)⟩

theorem completions_tombAfter_iff {c : CompletedWrite} (hc : c ∈ completedWrites s.trace)
    (hput : c.op.isDelete = false) : completions.TombAfter (completedWrites s.trace) c ↔
      DeleteCompletesAfter (completedWrites s.trace) c.op := by
  constructor
  · rintro ⟨i, j, hsub, -, hs, -, hjk, hjt⟩
    have hi : i ∈ completedWrites s.trace := hsub.subset List.mem_cons_self
    exact ⟨i, j, hsub, op_eq_of_sequence_eq hdoes hwin ((hops i.op).mpr ⟨i, hi, rfl⟩)
      ((hops c.op).mpr ⟨c, hc, rfl⟩) hs, hjk, hjt⟩
  · rintro ⟨i, j, hsub, hi, hjk, hjt⟩
    exact ⟨i, j, hsub, congrArg WriteOp.key hi, congrArg WriteOp.sequence hi,
      (congrArg WriteOp.isDelete hi).trans hput, hjk, hjt⟩

omit hdoes hwin in
theorem completions_tombNewer_iff (c : CompletedWrite) :
    completions.TombNewer (completedWrites s.trace) c ↔
      DeleteNewer (issuedOps s.trace) c.op := by
  constructor
  · rintro ⟨j, hj, h⟩
    exact ⟨j.op, (hops j.op).mpr ⟨j, hj, rfl⟩, h⟩
  · rintro ⟨d, hd, h⟩
    obtain ⟨j, hj, rfl⟩ := (hops d).mp hd
    exact ⟨j, hj, h⟩

/-- A lookup shows the newest operations exactly when it shows the newest completions. -/
theorem showsNewestOps_iff (m : MemIndex n) :
    ShowsNewestOps m (issuedOps s.trace) (completedWrites s.trace) ↔
      completions.Shows m (completedWrites s.trace) := by
  constructor
  · intro h c hc
    have hnew := h c.op ((completions_isNewest_iff hops hc.1).mp hc)
    by_cases ht : c.op.isDelete = true
    · rw [if_pos (show completions.tomb c = true from ht)]
      rwa [if_pos ht] at hnew
    · rw [if_neg (show ¬ completions.tomb c = true from ht)]
      rw [if_neg ht] at hnew
      obtain ⟨d, hd, hop, hfind⟩ := hnew
      have hput : d.op.isDelete = false := hop ▸ Bool.eq_false_iff.mpr ht
      refine ⟨d, hd, congrArg WriteOp.key hop, congrArg WriteOp.sequence hop, hput, ?_⟩
      refine hfind.trans (congrArg some ?_)
      rw [← hop, ← (d.entry_eq hput).1]
      rfl
  · intro h w hw
    obtain ⟨c, hc, rfl⟩ := (hops w).mp hw.1
    have hnew := h c ((completions_isNewest_iff hops hc).mpr hw)
    by_cases ht : c.op.isDelete = true
    · rw [if_pos ht]
      rwa [if_pos (show completions.tomb c = true from ht)] at hnew
    · rw [if_neg ht]
      rw [if_neg (show ¬ completions.tomb c = true from ht)] at hnew
      obtain ⟨d, hd, hk, hs, hput, hfind⟩ := hnew
      refine ⟨d, hd, op_eq_of_sequence_eq hdoes hwin ((hops d.op).mpr ⟨d, hd, rfl⟩)
        ((hops c.op).mpr ⟨c, hc, rfl⟩) hs, hfind.trans (congrArg some ?_)⟩
      have hkey : d.entry.key = c.op.key := (d.entry_eq hput).1.trans hk
      rw [← hkey]
      rfl

end Settling

/-- **When the newest operation on every key decides.** Once all operations that were issued
on an engine have completed, through calls that the index accepts, the index shows the
newest operation on every key if and only if, for the newest put of every key, a delete
completes after it exactly when one is newer. -/
theorem completions_settle_iff {start : Engine n} {events : List AsyncEvent}
    {s : AsyncSystem n} (hwf : start.memIndex.Wf) (hidle : start.pending = 0)
    (hrun : (asyncMachine n).run ⟨start, []⟩ events = some s)
    (hwin : SequencesInWindow start.memIndex (issuedOps s.trace).length)
    (hdone : s.engine.pending = 0) (hok : failedOps s.trace = [])
    (hacc : AcceptedTrace start.memIndex s.trace) :
    ShowsNewestOps s.engine.memIndex (issuedOps s.trace) (completedWrites s.trace) ↔
      ∀ p, NewestPutOp (issuedOps s.trace) p →
        (DeleteCompletesAfter (completedWrites s.trace) p ↔
          DeleteNewer (issuedOps s.trace) p) := by
  have hdoes := AsyncSystem.does_run hrun
  have hperm : (↑(issuedOps s.trace) : Multiset WriteOp) =
      ↑((completedWrites s.trace).map CompletedWrite.op) := by
    have := hdoes.conserved
    rwa [hidle, hdone, hok, zero_add, zero_add, Multiset.coe_nil, add_zero] at this
  have hops : ∀ w, w ∈ issuedOps s.trace ↔ ∃ c ∈ completedWrites s.trace, c.op = w := by
    intro w
    rw [(Multiset.coe_eq_coe.mp hperm).mem_iff, List.mem_map]
  have hv := completions_valid hdoes hwin hops
  obtain ⟨hm, hst⟩ := hwf.stored_trace hacc
  rw [← hdoes.memIndex] at hm hst
  have hcalls : (completedWrites s.trace).map CompletedWrite.call =
      (completedWrites s.trace).map completions.call :=
    List.map_congr_left fun c _ => (completions_call c).symm
  have hst' (key : UInt64) : s.engine.memIndex.stored key = newestEntry.run completions.cmd
      (completions.on (completedWrites s.trace) key) (start.memIndex.stored key) := by
    rw [hst, hcalls, hv.filterMap_cmdFor, NewestWins.run_map]
  rw [showsNewestOps_iff hdoes hwin hops, hv.shows_iff hm hst']
  constructor
  · intro h p hp
    obtain ⟨c, hc, rfl⟩ := (hops p).mp hp.1
    rw [← completions_tombAfter_iff hdoes hwin hops hc hp.2.1,
      ← completions_tombNewer_iff hops]
    exact h c ((completions_isNewestPut_iff hops hc).mpr hp)
  · intro h c hc
    rw [completions_tombAfter_iff hdoes hwin hops hc.1 hc.2.1,
      completions_tombNewer_iff hops]
    exact h c.op ((completions_isNewestPut_iff hops hc.1).mp hc)

/-! ### Two runs on one key -/

instance AcceptedTrace.decidable : (m : MemIndex n) → (effs : List WriteEffect) →
    Decidable (AcceptedTrace m effs)
  | _, [] => inferInstanceAs (Decidable True)
  | m, .completed c :: effs =>
      have := AcceptedTrace.decidable (m.applyOp c.call) effs
      inferInstanceAs (Decidable (m.AcceptedOp c.call ∧ AcceptedTrace (m.applyOp c.call) effs))
  | m, .issued _ :: effs => AcceptedTrace.decidable m.allocateSequence.1 effs
  | m, .failed _ :: effs => AcceptedTrace.decidable m effs

/-- Nothing is in flight or waits. -/
def Engine.idle (self : Engine n) : Bool :=
  self.space.inflight.isEmpty && self.pendingWriteQueue.isEmpty && self.waitQueue.isEmpty &&
    self.bufferPendingWrites.isEmpty

theorem Engine.pending_of_idle {self : Engine n} (h : self.idle = true) :
    self.pending = 0 := by
  simp only [idle, Bool.and_eq_true, List.isEmpty_iff] at h
  obtain ⟨⟨⟨h1, h2⟩, h3⟩, h4⟩ := h
  rw [pending, h1, h2, h3, h4]
  rfl

/-- An engine with an empty index and one data file. -/
def sampleEngine : Engine 3 where
  state := .kReady
  memIndex := MemIndex.fresh 3
  space := .created kDefaultFileSize
  pendingWriteQueue := []
  waitQueue := []
  bufferManager := .init 4
  bufferPendingWrites := []
  totalDataBytes := 0
  totalGarbageBytes := 0
  pendingForegroundCount := 0

theorem sampleEngine_window {count : ℕ} (h : count < 2 ^ 31) :
    SequencesInWindow sampleEngine.memIndex count where
  issued := h
  stored := fun key e he => by
    rw [show sampleEngine.memIndex = MemIndex.fresh 3 from rfl, MemIndex.stored_fresh] at he
    cases he

/-- A put and a delete of key 1 that complete in order. -/
def inOrder : List AsyncEvent :=
  [.putAsync 1 [4096], .complete 0 true, .deleteAsync 1, .complete 0 true]

/-- In order, the newest operation decides. -/
theorem completions_settle_inOrder :
    ∃ s, (asyncMachine 3).run ⟨sampleEngine, []⟩ inOrder = some s ∧
      s.trace.length = 4 ∧
      ShowsNewestOps s.engine.memIndex (issuedOps s.trace) (completedWrites s.trace) := by
  have hrun : ((asyncMachine 3).run ⟨sampleEngine, []⟩ inOrder).map (fun s =>
      (s.trace.length, issuedOps s.trace, (completedWrites s.trace).map CompletedWrite.op,
        s.engine.idle && (failedOps s.trace).isEmpty &&
          decide (AcceptedTrace sampleEngine.memIndex s.trace))) =
      some (4, [⟨1, 1, false⟩, ⟨1, 2, true⟩], [⟨1, 1, false⟩, ⟨1, 2, true⟩], true) := by
    decide +kernel
  obtain ⟨s, hs, hfacts⟩ := Option.map_eq_some_iff.mp hrun
  simp only [Prod.mk.injEq, Bool.and_eq_true, List.isEmpty_iff, decide_eq_true_eq] at hfacts
  obtain ⟨hlen, hissued, hcompleted, ⟨hidle, hfailed⟩, hacc⟩ := hfacts
  refine ⟨s, hs, hlen, (completions_settle_iff (MemIndex.fresh_wf 3) rfl hs
    (sampleEngine_window (by rw [hissued]; decide)) (Engine.pending_of_idle hidle) hfailed
    hacc).mpr fun p hp => ?_⟩
  obtain rfl : p = ⟨1, 1, false⟩ := by
    have hmem := hp.1
    rw [hissued] at hmem
    rcases List.mem_cons.mp hmem with rfl | hmem
    · rfl
    · obtain rfl := List.mem_singleton.mp hmem
      cases hp.2.1
  constructor
  · exact fun _ => ⟨⟨1, 2, true⟩, by rw [hissued]; decide, rfl, rfl, by decide⟩
  · intro _
    obtain ⟨c, d, hcs⟩ : ∃ c d, completedWrites s.trace = [c, d] := by
      match hcs : completedWrites s.trace with
      | [c, d] => exact ⟨c, d, rfl⟩
      | [] | [_] | _ :: _ :: _ :: _ => simp [hcs] at hcompleted
    rw [hcs] at hcompleted ⊢
    obtain ⟨hc, hd⟩ : c.op = ⟨1, 1, false⟩ ∧ d.op = ⟨1, 2, true⟩ := by simpa using hcompleted
    exact ⟨c, d, List.Sublist.refl _, hc, by rw [hd], by rw [hd]⟩

/-- A put of key 1 completes; a delete and a newer put are submitted, and the newer put
completes first. -/
def deleteLast : List AsyncEvent :=
  [.putAsync 1 [4096], .complete 0 true, .deleteAsync 1, .putAsync 1 [4096],
    .complete 1 true, .complete 0 true]

/-- **A delete that completes after a newer put removes it**: the newest operation on key 1
is the put with sequence 3, all operations have completed, and the key is not found. -/
theorem late_delete_removes_newer_put :
    ∃ s, (asyncMachine 3).run ⟨sampleEngine, []⟩ deleteLast = some s ∧
      s.engine.pending = 0 ∧ failedOps s.trace = [] ∧
      SequencesInWindow sampleEngine.memIndex (issuedOps s.trace).length ∧
      AcceptedTrace sampleEngine.memIndex s.trace ∧
      ¬ ShowsNewestOps s.engine.memIndex (issuedOps s.trace) (completedWrites s.trace) := by
  have hrun : ((asyncMachine 3).run ⟨sampleEngine, []⟩ deleteLast).map (fun s =>
      (issuedOps s.trace, s.engine.memIndex.findEntry 1, s.engine.idle &&
        (failedOps s.trace).isEmpty &&
          decide (AcceptedTrace sampleEngine.memIndex s.trace))) =
      some ([⟨1, 1, false⟩, ⟨1, 2, true⟩, ⟨1, 3, false⟩], none, true) := by
    decide +kernel
  obtain ⟨s, hs, hfacts⟩ := Option.map_eq_some_iff.mp hrun
  simp only [Prod.mk.injEq, Bool.and_eq_true, List.isEmpty_iff, decide_eq_true_eq] at hfacts
  obtain ⟨hissued, hfind, ⟨hidle, hfailed⟩, hacc⟩ := hfacts
  refine ⟨s, hs, Engine.pending_of_idle hidle, hfailed,
    sampleEngine_window (by rw [hissued]; decide), hacc, fun h => ?_⟩
  have hnew : NewestOp (issuedOps s.trace) ⟨1, 3, false⟩ := by
    rw [hissued]
    exact ⟨by decide, by decide⟩
  obtain ⟨c, -, -, hshown⟩ := h _ hnew
  rw [hfind] at hshown
  cases hshown

end SpdkKv
