import SpdkKv.Lib.Machine
import SpdkKv.Lib.NewestWins
import SpdkKv.UpsertSpec

/-!
# The Index as a Finite Map

What the memory index is for: a map from keys to entries in which the newest sequence wins
and a removed key keeps its entry as a tombstone. `stored` reads this map off a table;
every orderly `upsert` that succeeds is a `NewestWins.put` of the map and every `remove` a
`NewestWins.del`.

## Main results

* `Wf.stored_upsert`, `Wf.stored_remove`: **the table refines the map**.
* `upsert_refines_map`: the refinement over whole runs of the index, stated for lookups.
* `upsert_loses_entry`: a run whose last call displaces entries for a stored key and loses
  the entry of another key.
-/

namespace SpdkKv

/-- Entries ordered by the wrap-around comparison of their sequences; a removed entry keeps
its sequence. -/
def newestEntry : NewestWins MemIndexEntry where
  newer := fun a b => MemIndex.sequenceNewer a.sequence b.sequence
  kill := fun e => { e with deleted := true }
  dead := fun e => e.deleted
  newer_kill := fun _ _ => rfl
  kill_kill := fun _ => rfl
  dead_kill := fun _ => rfl

namespace MemIndex

variable {n : ℕ}

/-! ### The stored map -/

/-- The entry of a key, deleted or not. -/
def stored (m : MemIndex n) (key : UInt64) : Option MemIndexEntry :=
  ((List.finRange (2 ^ n)).find? fun i => decide (m.Occupied i ∧ (m.entries i).key = key)).map
    m.entries

theorem Wf.stored_eq_some_iff {m : MemIndex n} (hm : m.Wf) {key : UInt64}
    {e : MemIndexEntry} : m.stored key = some e ↔ m.Holds e ∧ e.key = key := by
  constructor
  · intro h
    obtain ⟨i, hi, rfl⟩ := Option.map_eq_some_iff.mp h
    obtain ⟨ho, hk⟩ : m.Occupied i ∧ (m.entries i).key = key := by
      simpa using List.find?_some hi
    exact ⟨⟨i, ho, rfl⟩, hk⟩
  · rintro ⟨⟨i, ho, rfl⟩, hk⟩
    cases hf : (List.finRange (2 ^ n)).find? fun i =>
        decide (m.Occupied i ∧ (m.entries i).key = key) with
    | none =>
        have := List.find?_eq_none.mp hf i (List.mem_finRange i)
        exact absurd (decide_eq_true ⟨ho, hk⟩) this
    | some j =>
        obtain ⟨hoj, hkj⟩ : m.Occupied j ∧ (m.entries j).key = key := by
          simpa using List.find?_some hf
        rw [stored, hf, Option.map_some, hm.inj j i hoj ho (hkj.trans hk.symm)]

theorem Wf.stored_eq_none_iff {m : MemIndex n} (hm : m.Wf) {key : UInt64} :
    m.stored key = none ↔ m.Absent key := by
  rw [absent_iff_forall_holds, Option.eq_none_iff_forall_ne_some]
  constructor
  · intro h e he hk
    exact h e (hm.stored_eq_some_iff.mpr ⟨he, hk⟩)
  · intro h e he
    obtain ⟨hh, hk⟩ := hm.stored_eq_some_iff.mp he
    exact h e hh hk

/-- Lookup is the stored map without its tombstones. -/
theorem Wf.findEntry_eq {m : MemIndex n} (hm : m.Wf) (key : UInt64) :
    m.findEntry key = (m.stored key).filter fun e => !e.deleted := by
  refine Option.ext fun e => ?_
  rw [hm.findEntry_eq_some_iff, Option.filter_eq_some_iff, hm.stored_eq_some_iff, and_assoc,
    Bool.not_eq_true']

/-- An entry is found unless it is a tombstone. -/
theorem filter_some_live (e : MemIndexEntry) :
    (some e).filter (fun e => !e.deleted) = if e.deleted then none else some e := by
  cases h : e.deleted <;> simp [h]

/-- Tables that hold the same entries store the same map. -/
theorem Wf.stored_congr {m m' : MemIndex n} (hm : m.Wf) (hm' : m'.Wf) {key : UInt64}
    (h : ∀ e, e.key = key → (m'.Holds e ↔ m.Holds e)) : m'.stored key = m.stored key := by
  refine Option.ext fun e => ?_
  rw [hm'.stored_eq_some_iff, hm.stored_eq_some_iff]
  constructor
  · rintro ⟨hh, hk⟩
    exact ⟨(h e hk).mp hh, hk⟩
  · rintro ⟨hh, hk⟩
    exact ⟨(h e hk).mpr hh, hk⟩

theorem stored_fresh (n : ℕ) (key : UInt64) : (fresh n).stored key = none :=
  (fresh_wf n).stored_eq_none_iff.mpr (fresh_absent n key)

/-! ### Refinement -/

/-- Replacing the entry of a slot by one with the same key updates the map at that key. -/
theorem Wf.stored_setEntry {m : MemIndex n} (hm : m.Wf) {i : Fin (2 ^ n)} {e : MemIndexEntry}
    (ho : m.Occupied i) (hk : e.key = (m.entries i).key)
    (htag : e.tag = HashUtil.tag e.key) :
    (m.setEntry i e).stored = Function.update m.stored e.key (some e) := by
  have hm' := hm.update ho hk htag
  have hholds : ∀ x, (m.setEntry i e).Holds x ↔
      x = e ∨ ∃ j, j ≠ i ∧ m.Occupied j ∧ m.entries j = x := fun x => by
    rw [setEntry_eq_place]
    exact holds_place_iff ho
  funext key
  by_cases hkey : key = e.key
  · subst hkey
    rw [Function.update_self, hm'.stored_eq_some_iff, hholds]
    exact ⟨Or.inl rfl, rfl⟩
  · rw [Function.update_of_ne hkey]
    refine hm.stored_congr hm' fun x hx => ?_
    rw [hholds]
    constructor
    · rintro (rfl | ⟨j, -, hj, rfl⟩)
      · exact absurd hx.symm hkey
      · exact ⟨j, hj, rfl⟩
    · rintro ⟨j, hj, rfl⟩
      refine Or.inr ⟨j, ?_, hj, rfl⟩
      rintro rfl
      exact hkey (hx.symm.trans hk.symm)

/-- **`upsert` refines `NewestWins.put`**: an orderly call that succeeds puts the new entry
into the map under its key and changes nothing else. -/
theorem Wf.stored_upsert {m : MemIndex n} (hm : m.Wf) {e : MemIndexEntry}
    (hord : m.Orderly e.key) (hok : (m.upsert e.key e).2 = true) :
    (m.upsert e.key e).1.stored = Function.update m.stored e.key
      (newestEntry.put (tagged e.key e) (m.stored e.key)) := by
  have hm' := hm.upsert rfl hord
  by_cases habs : m.Absent e.key
  · have hholds := (hm.upsert_absent rfl habs fun h => (hord h).2).2.1 hok
    rw [hm.stored_eq_none_iff.mpr habs, NewestWins.put_none]
    funext key
    by_cases hkey : key = e.key
    · subst hkey
      rw [Function.update_self, hm'.stored_eq_some_iff, hholds]
      exact ⟨Or.inr rfl, tagged_key _ e⟩
    · rw [Function.update_of_ne hkey]
      refine hm.stored_congr hm' fun x hx => ?_
      rw [hholds, or_iff_left]
      rintro rfl
      exact hkey (hx.symm.trans (tagged_key _ e))
  · obtain ⟨i, ho, hki⟩ : ∃ i, m.Occupied i ∧ (m.entries i).key = e.key := by
      simpa [Absent] using habs
    have hst : m.stored e.key = some (m.entries i) :=
      hm.stored_eq_some_iff.mpr ⟨⟨i, ho, rfl⟩, hki⟩
    have hnewer : newestEntry.newer (tagged e.key e) (m.entries i) =
        sequenceNewer e.sequence (m.entries i).sequence := by
      simp only [newestEntry, tagged_sequence]
    rw [hm.upsert_stored ho hki fun h => habs (hord h).1, hst, NewestWins.put_some, hnewer]
    split_ifs
    · have := hm.stored_setEntry (e := tagged e.key e) ho ((tagged_key _ e).trans hki.symm)
        (by rw [tagged_tag, tagged_key])
      rwa [tagged_key] at this
    · rw [← hst, Function.update_eq_self]

/-- `remove` keeps a table well formed. -/
theorem Wf.remove {m : MemIndex n} (hm : m.Wf) (key : UInt64) : (m.remove key).1.Wf := by
  rw [MemIndex.remove]
  split
  · next i hi =>
      obtain ⟨ho, -, -⟩ := hm.of_find hi
      exact hm.update ho rfl (hm.tag_eq i ho)
  · exact hm

/-- **`remove` refines `NewestWins.del`**: it leaves a tombstone. -/
theorem Wf.stored_remove {m : MemIndex n} (hm : m.Wf) (key : UInt64) :
    (m.remove key).1.stored =
      Function.update m.stored key (newestEntry.del (m.stored key)) := by
  rw [MemIndex.remove]
  split
  · next i hi =>
      obtain ⟨ho, hk, -⟩ := hm.of_find hi
      have hst : m.stored key = some (m.entries i) :=
        hm.stored_eq_some_iff.mpr ⟨⟨i, ho, rfl⟩, hk⟩
      have := hm.stored_setEntry (e := newestEntry.kill (m.entries i)) ho rfl (hm.tag_eq i ho)
      rw [hst]
      rwa [show (newestEntry.kill (m.entries i)).key = key from hk] at this
  · next hnone =>
      have hfind : m.findEntry key = none := by rw [findEntry, hnone, Option.map_none]
      rw [hm.findEntry_eq] at hfind
      have hdel : newestEntry.del (m.stored key) = m.stored key := by
        cases hs : m.stored key with
        | none => rfl
        | some o =>
            have hd : o.deleted = true := by simpa [hs] using hfind
            obtain ⟨⟩ := o
            obtain rfl : _ = true := hd
            rfl
      rw [hdel, Function.update_eq_self]

/-! ### Runs of the index -/

end MemIndex

/-- A call that changes the index. -/
inductive IndexOp
  /-- `upsert(e.key, e)`. -/
  | upsert (e : MemIndexEntry)
  /-- `remove(key)`. -/
  | remove (key : UInt64)

namespace MemIndex

variable {n : ℕ}

/-- The effect of a call. -/
def applyOp (m : MemIndex n) : IndexOp → MemIndex n
  | .upsert e => (m.upsert e.key e).1
  | .remove key => (m.remove key).1

/-- The index as a machine over its calls. -/
def indexMachine (n : ℕ) : Machine (MemIndex n) IndexOp where
  step := fun m op => some (m.applyOp op)

theorem step_upsert {m m' : MemIndex n} {e : MemIndexEntry} {ok : Bool}
    (h : m.upsert e.key e = (m', ok)) : (indexMachine n).step m (.upsert e) = some m' := by
  simp only [indexMachine, applyOp, h]

/-- Calls are always enabled. -/
theorem indexMachine_run (m : MemIndex n) (ops : List IndexOp) :
    (indexMachine n).run m ops = some (ops.foldl applyOp m) := by
  induction ops generalizing m with
  | nil => rfl
  | cons op ops ih => exact ih (m.applyOp op)

/-- A call that displaces entries only for an absent key and in a table with a free slot. -/
def OrderlyOp (m : MemIndex n) : IndexOp → Prop
  | .upsert e => m.Orderly e.key
  | .remove _ => True

/-- An orderly call that finds room. -/
def AcceptedOp (m : MemIndex n) : IndexOp → Prop
  | .upsert e => m.Orderly e.key ∧ (m.upsert e.key e).2 = true
  | .remove _ => True

theorem AcceptedOp.orderly {m : MemIndex n} {op : IndexOp} (h : m.AcceptedOp op) :
    m.OrderlyOp op := by
  cases op with
  | upsert e => exact h.1
  | remove key => trivial

instance (m : MemIndex n) : (op : IndexOp) → Decidable (m.AcceptedOp op)
  | .upsert e => inferInstanceAs (Decidable (m.Orderly e.key ∧ (m.upsert e.key e).2 = true))
  | .remove _ => inferInstanceAs (Decidable True)

/-- An orderly call keeps a table well formed. -/
theorem Wf.applyOp {m : MemIndex n} (hm : m.Wf) {op : IndexOp} (hop : m.OrderlyOp op) :
    (m.applyOp op).Wf := by
  cases op with
  | upsert e => exact hm.upsert rfl hop
  | remove key => exact hm.remove key

/-- A run of orderly calls ends in a well-formed table. -/
theorem Wf.run {m m' : MemIndex n} (hm : m.Wf) {ops : List IndexOp}
    (hops : (indexMachine n).Meets OrderlyOp m ops)
    (hrun : (indexMachine n).run m ops = some m') : m'.Wf := by
  refine (indexMachine n).run_invariant Wf ?_ hm hops hrun
  intro s op s' hs hop hstep
  obtain rfl := Option.some.inj hstep
  exact hs.applyOp hop

end MemIndex

open NewestWins in
/-- What a call commands to the register of a key. -/
def IndexOp.cmdFor (key : UInt64) : IndexOp → Option (Cmd MemIndexEntry)
  | .upsert e => if e.key = key then some (.put (MemIndex.tagged key e)) else none
  | .remove k => if k = key then some .del else none

namespace MemIndex

variable {n : ℕ}

/-- An accepted call commands the register of its key and leaves the others alone. -/
theorem Wf.stored_applyOp {m : MemIndex n} (hm : m.Wf) {op : IndexOp} (hop : m.AcceptedOp op)
    (key : UInt64) : (m.applyOp op).stored key =
      (op.cmdFor key).elim (m.stored key) (newestEntry.apply (m.stored key)) := by
  cases op with
  | upsert e =>
      rw [MemIndex.applyOp, hm.stored_upsert hop.1 hop.2, IndexOp.cmdFor]
      by_cases hk : e.key = key
      · subst hk
        rw [Function.update_self, if_pos rfl]
        rfl
      · rw [Function.update_of_ne (Ne.symm hk), if_neg hk]
        rfl
  | remove k =>
      rw [MemIndex.applyOp, hm.stored_remove, IndexOp.cmdFor]
      by_cases hk : k = key
      · subst hk
        rw [Function.update_self, if_pos rfl]
        rfl
      · rw [Function.update_of_ne (Ne.symm hk), if_neg hk]
        rfl

/-- **A run of accepted calls runs the register of every key.** -/
theorem Wf.stored_run {m : MemIndex n} (hm : m.Wf) {ops : List IndexOp}
    (hops : (indexMachine n).Meets AcceptedOp m ops) (key : UInt64) :
    (ops.foldl MemIndex.applyOp m).Wf ∧ (ops.foldl MemIndex.applyOp m).stored key =
      newestEntry.run id (ops.filterMap (IndexOp.cmdFor key)) (m.stored key) := by
  induction ops generalizing m with
  | nil => exact ⟨hm, rfl⟩
  | cons op ops ih =>
      have hst := hm.stored_applyOp hops.1 key
      have := ih (hm.applyOp hops.1.orderly) (hops.2 _ rfl)
      rw [hst] at this
      rw [List.foldl_cons, List.filterMap_cons]
      cases hc : op.cmdFor key with
      | none => rwa [hc] at this
      | some c => rwa [hc] at this

/-- **A newest entry is found** once the index has accepted it. -/
theorem Wf.findEntry_upsert {m : MemIndex n} (hm : m.Wf) {e : MemIndexEntry}
    (hop : m.AcceptedOp (.upsert e)) (hlive : e.deleted = false)
    (hnew : ∀ o, m.stored e.key = some o → sequenceNewer e.sequence o.sequence = true) :
    (m.upsert e.key e).1.findEntry e.key = some (tagged e.key e) := by
  have hput : newestEntry.put (tagged e.key e) (m.stored e.key) = some (tagged e.key e) := by
    cases ho : m.stored e.key with
    | none => rfl
    | some o =>
        rw [NewestWins.put_some]
        simp only [newestEntry, tagged_sequence]
        rw [if_pos (hnew o ho)]
  rw [(hm.upsert rfl hop.1).findEntry_eq, hm.stored_upsert hop.1 hop.2, Function.update_self, hput,
    filter_some_live, tagged_deleted, hlive, if_neg Bool.false_ne_true]

/-- An entry that the index has accepted leaves the other keys alone. -/
theorem Wf.findEntry_upsert_of_ne {m : MemIndex n} (hm : m.Wf) {e : MemIndexEntry}
    (hop : m.AcceptedOp (.upsert e)) {key : UInt64} (hkey : key ≠ e.key) :
    (m.upsert e.key e).1.findEntry key = m.findEntry key := by
  rw [(hm.upsert rfl hop.1).findEntry_eq, hm.findEntry_eq, hm.stored_upsert hop.1 hop.2,
    Function.update_of_ne hkey]

/-- A removed key is not found. -/
theorem Wf.findEntry_remove {m : MemIndex n} (hm : m.Wf) (key : UInt64) :
    (m.remove key).1.findEntry key = none := by
  rw [(hm.remove key).findEntry_eq, hm.stored_remove, Function.update_self]
  cases m.stored key with
  | none => rfl
  | some o => rfl

/-- The other keys are left alone. -/
theorem Wf.findEntry_remove_of_ne {m : MemIndex n} (hm : m.Wf) {key k : UInt64} (hk : k ≠ key) :
    (m.remove key).1.findEntry k = m.findEntry k := by
  rw [(hm.remove key).findEntry_eq, hm.findEntry_eq, hm.stored_remove, Function.update_of_ne hk]

/-- **The index is a map in which the newest sequence wins**, over every run of orderly
calls: a further orderly `upsert` that succeeds leaves every other key alone and stores its
entry unless the stored one is as new, and a removed key is not found. -/
theorem upsert_refines_map {ops : List IndexOp} {m : MemIndex n}
    (hops : (indexMachine n).Meets OrderlyOp (fresh n) ops)
    (hrun : (indexMachine n).run (fresh n) ops = some m) :
    (∀ e : MemIndexEntry, m.Orderly e.key → (m.upsert e.key e).2 = true →
      (∀ key ≠ e.key, (m.upsert e.key e).1.findEntry key = m.findEntry key) ∧
      (m.stored e.key = none → (m.upsert e.key e).1.findEntry e.key =
        if e.deleted then none else some (tagged e.key e)) ∧
      ∀ o, m.stored e.key = some o → (m.upsert e.key e).1.findEntry e.key =
        if sequenceNewer e.sequence o.sequence then
          if e.deleted then none else some (tagged e.key e)
        else m.findEntry e.key) ∧
    ∀ key, (m.remove key).1.findEntry key = none := by
  have hm : m.Wf := (fresh_wf n).run hops hrun
  constructor
  · intro e hord hok
    have hst := hm.stored_upsert hord hok
    have hm' := hm.upsert rfl hord
    refine ⟨fun key hkey => hm.findEntry_upsert_of_ne ⟨hord, hok⟩ hkey, fun hnone => ?_,
      fun o ho => ?_⟩
    · rw [hm'.findEntry_eq, hst, Function.update_self, hnone, NewestWins.put_none,
        filter_some_live, tagged_deleted]
    · rw [hm'.findEntry_eq, hm.findEntry_eq, hst, Function.update_self, ho,
        NewestWins.put_some]
      simp only [newestEntry, tagged_sequence]
      split_ifs with hnewer hdel
      · rw [filter_some_live, tagged_deleted, if_pos hdel]
      · rw [filter_some_live, tagged_deleted, if_neg hdel]
      · rfl
  · exact hm.findEntry_remove

/-! ### A lost entry -/

/-- A table of capacity 8 written out slot by slot. -/
def ofSlots (slots : List (MemIndexEntry × ℕ)) (size : ℕ) : MemIndex 3 where
  entries := fun i => (slots.getD i (MemIndexEntry.zero, 0)).1
  psl := fun i => (slots.getD i (MemIndexEntry.zero, 0)).2
  size := size
  globalSequence := 0

/-- The entry of a key with a sequence, on page 1 of file 0. -/
def sampleEntry (key : UInt64) (sequence : UInt32) : MemIndexEntry :=
  tagged key ⟨key, 0, 1, false, sequence, 1, 0⟩

/-- Tables that agree slot by slot are equal. -/
theorem eq_of_slots {m m' : MemIndex n} (he : ∀ i, m.entries i = m'.entries i)
    (hp : ∀ i, m.psl i = m'.psl i) (hs : m.size = m'.size)
    (hg : m.globalSequence = m'.globalSequence) : m = m' := by
  obtain ⟨e, p, s, g⟩ := m
  obtain ⟨e', p', s', g'⟩ := m'
  obtain rfl : e = e' := funext he
  obtain rfl : p = p' := funext hp
  obtain rfl : s = s' := hs
  obtain rfl : g = g' := hg
  rfl

/-- The slots from 4 on of a table of capacity 8. -/
def fromSlot4 (slots : List (MemIndexEntry × ℕ)) : MemIndex 3 :=
  ofSlots (List.replicate 4 (MemIndexEntry.zero, 0) ++ slots) slots.length

/-- After key 1. -/
def afterKey1 : MemIndex 3 := fromSlot4 [(sampleEntry 1 1, 1)]

/-- After key 8. -/
def afterKey8 : MemIndex 3 := fromSlot4 [(sampleEntry 1 1, 1), (sampleEntry 8 2, 1)]

/-- After key 9, which displaces key 8. -/
def afterKey9 : MemIndex 3 :=
  fromSlot4 [(sampleEntry 1 1, 1), (sampleEntry 9 5, 1), (sampleEntry 8 2, 4)]

/-- After key 17, which displaces key 9. -/
def afterKey17 : MemIndex 3 := fromSlot4
  [(sampleEntry 1 1, 1), (sampleEntry 17 3, 1), (sampleEntry 8 2, 4), (sampleEntry 9 5, 5)]

/-- After a newer write of key 9, which displaces key 17 and meets the old entry of key 9
with it. -/
def afterKey9Again : MemIndex 3 := fromSlot4
  [(sampleEntry 1 1, 1), (sampleEntry 9 6, 1), (sampleEntry 8 2, 4), (sampleEntry 9 5, 5)]

theorem upsert_key1 : (fresh 3).upsert 1 (sampleEntry 1 1) = (afterKey1, true) :=
  Prod.ext (eq_of_slots (by decide +kernel) (by decide +kernel) (by decide +kernel)
    (by decide +kernel)) (by decide +kernel)

theorem upsert_key8 : afterKey1.upsert 8 (sampleEntry 8 2) = (afterKey8, true) :=
  Prod.ext (eq_of_slots (by decide +kernel) (by decide +kernel) (by decide +kernel)
    (by decide +kernel)) (by decide +kernel)

theorem upsert_key9 : afterKey8.upsert 9 (sampleEntry 9 5) = (afterKey9, true) :=
  Prod.ext (eq_of_slots (by decide +kernel) (by decide +kernel) (by decide +kernel)
    (by decide +kernel)) (by decide +kernel)

theorem upsert_key17 : afterKey9.upsert 17 (sampleEntry 17 3) = (afterKey17, true) :=
  Prod.ext (eq_of_slots (by decide +kernel) (by decide +kernel) (by decide +kernel)
    (by decide +kernel)) (by decide +kernel)

theorem upsert_key9_again :
    afterKey17.upsert 9 (sampleEntry 9 6) = (afterKey9Again, true) :=
  Prod.ext (eq_of_slots (by decide +kernel) (by decide +kernel) (by decide +kernel)
    (by decide +kernel)) (by decide +kernel)

theorem step_key1 : (indexMachine 3).step (fresh 3) (.upsert (sampleEntry 1 1)) =
    some afterKey1 :=
  step_upsert upsert_key1

theorem step_key8 : (indexMachine 3).step afterKey1 (.upsert (sampleEntry 8 2)) =
    some afterKey8 :=
  step_upsert upsert_key8

theorem run_key1 : (indexMachine 3).run (fresh 3) [.upsert (sampleEntry 1 1)] =
    some afterKey1 := by
  simp only [Machine.run, step_key1, Option.bind_some]

theorem orderly_key1 : (fresh 3).OrderlyOp (.upsert (sampleEntry 1 1)) := by
  rw [OrderlyOp, sampleEntry, tagged_key]
  decide +kernel

/-- The refinement on a run of one write, for a further write and for a removal. -/
theorem upsert_refines_map_afterKey1 :
    (afterKey1.upsert 8 (sampleEntry 8 2)).1.findEntry 1 = afterKey1.findEntry 1 ∧
      (afterKey1.remove 1).1.findEntry 1 = none := by
  have hops : (indexMachine 3).Meets OrderlyOp (fresh 3) [.upsert (sampleEntry 1 1)] :=
    ⟨orderly_key1, fun _ _ => trivial⟩
  have h := upsert_refines_map hops run_key1
  have hok : (afterKey1.upsert (sampleEntry 8 2).key (sampleEntry 8 2)).2 = true :=
    congrArg Prod.snd upsert_key8
  exact ⟨(h.1 (sampleEntry 8 2) (by decide +kernel) hok).1 1 (by decide +kernel), h.2 1⟩

/-- The run that the table of the lost entry comes from. -/
theorem run_afterKey17 : (indexMachine 3).run (fresh 3)
    [.upsert (sampleEntry 1 1), .upsert (sampleEntry 8 2), .upsert (sampleEntry 9 5),
      .upsert (sampleEntry 17 3)] = some afterKey17 := by
  have h3 : (indexMachine 3).step afterKey8 (.upsert (sampleEntry 9 5)) = some afterKey9 :=
    step_upsert upsert_key9
  have h4 : (indexMachine 3).step afterKey9 (.upsert (sampleEntry 17 3)) = some afterKey17 :=
    step_upsert upsert_key17
  simp only [Machine.run, step_key1, step_key8, h3, h4, Option.bind_some]

/-- **A lost entry**: after four successful writes, a fifth to key 9 returns `true` and key
17, found before, is gone. -/
theorem upsert_loses_entry :
    ∃ m : MemIndex 3, (indexMachine 3).run (fresh 3)
      [.upsert (sampleEntry 1 1), .upsert (sampleEntry 8 2), .upsert (sampleEntry 9 5),
        .upsert (sampleEntry 17 3)] = some m ∧
      (m.upsert 9 (sampleEntry 9 6)).2 = true ∧
      m.findEntry 17 = some (sampleEntry 17 3) ∧
      (m.upsert 9 (sampleEntry 9 6)).1.findEntry 17 = none := by
  refine ⟨afterKey17, run_afterKey17, ?_, ?_, ?_⟩
  · rw [upsert_key9_again]
  · decide +kernel
  · rw [upsert_key9_again]
    decide +kernel

end MemIndex

end SpdkKv
