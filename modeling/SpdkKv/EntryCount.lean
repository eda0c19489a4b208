import Mathlib.Data.Set.Card
import SpdkKv.RebuiltLengths

/-!
# The Entry Count

`size_` of `mem_index.h` is what `get_entry_count` reports and what is persisted as
`total_entries`. An insertion into a free slot counts, a rebuild of the probe lengths counts
the entries that are not deleted; a removal does not, and neither does an update that brings
a deleted key back.

## Main results

* `Wf.ncard_liveKeys_upsert`, `Wf.ncard_liveKeys_remove`: how the number of keys that are
  found changes.
* `sizeExact_iff_balanced`: what one call does to the equality of the count with that number.
* `size_always_exact_iff`: **the count is the number of keys that are found, all along a run,
  exactly when** no call removes or brings back a key.
* `size_counts_removed`: a run after which the count is too high.
-/

namespace SpdkKv

/-- What the numbers of elements of two sets differ by that agree but for one element. -/
theorem ncard_add_of_agree {α : Type*} {s t : Set α} (hs : s.Finite) (ht : t.Finite) {a : α}
    (h : ∀ x, x ≠ a → (x ∈ s ↔ x ∈ t)) [Decidable (a ∈ s)] [Decidable (a ∈ t)] :
    s.ncard + (if a ∈ t then 1 else 0) = t.ncard + (if a ∈ s then 1 else 0) := by
  have hdiff : s \ {a} = t \ {a} := by
    ext x
    rw [Set.mem_sdiff_singleton, Set.mem_sdiff_singleton]
    exact and_congr_left (h x)
  have hcard : ∀ u : Set α, u.Finite → ∀ [Decidable (a ∈ u)],
      u.ncard = (u \ {a}).ncard + (if a ∈ u then 1 else 0) := by
    intro u hu _
    split_ifs with ha
    · exact (Set.ncard_sdiff_singleton_add_one ha hu).symm
    · rw [Set.sdiff_singleton_eq_self ha, Nat.add_zero]
  rw [hcard s hs, hcard t ht, hdiff]
  omega

namespace MemIndex

variable {n : ℕ}

/-! ### The keys that are found -/

/-- The keys for which `find` returns an entry. -/
def liveKeys (m : MemIndex n) : Set UInt64 := {key | m.find key ≠ none}

/-- The entry of the key is stored and not deleted. -/
def KeyLive (m : MemIndex n) (key : UInt64) : Prop :=
  ∃ e, m.stored key = some e ∧ e.deleted = false

instance (m : MemIndex n) (key : UInt64) : Decidable (m.KeyLive key) :=
  match h : m.stored key with
  | none => .isFalse fun ⟨e, he, _⟩ => by rw [h] at he; cases he
  | some e => decidable_of_iff (e.deleted = false)
      ⟨fun hd => ⟨e, h, hd⟩, fun ⟨e', he, hd⟩ => by
        rw [h] at he
        rwa [Option.some.inj he]⟩

theorem Wf.mem_liveKeys {m : MemIndex n} (hm : m.Wf) {key : UInt64} :
    key ∈ m.liveKeys ↔ m.KeyLive key := by
  rw [liveKeys, Set.mem_ofPred_eq, KeyLive]
  constructor
  · intro h
    obtain ⟨i, hi⟩ := Option.ne_none_iff_exists'.mp h
    obtain ⟨ho, hk, hd⟩ := hm.of_find hi
    exact ⟨m.entries i, hm.stored_eq_some_iff.mpr ⟨⟨i, ho, rfl⟩, hk⟩, hd⟩
  · rintro ⟨e, he, hd⟩
    obtain ⟨⟨i, ho, rfl⟩, hk⟩ := hm.stored_eq_some_iff.mp he
    rw [hm.find_eq ho hk hd]
    exact Option.some_ne_none i

/-- They are the keys of the live slots. -/
theorem Wf.liveKeys_eq_image {m : MemIndex n} (hm : m.Wf) :
    m.liveKeys = (fun i => (m.entries i).key) ''
      {i | m.Occupied i ∧ (m.entries i).deleted = false} := by
  ext key
  constructor
  · intro h
    obtain ⟨i, hi⟩ := Option.ne_none_iff_exists'.mp h
    obtain ⟨ho, hk, hd⟩ := hm.of_find hi
    exact ⟨i, ⟨ho, hd⟩, hk⟩
  · rintro ⟨i, ⟨ho, hd⟩, hk⟩
    rw [liveKeys, Set.mem_ofPred_eq, hm.find_eq ho hk hd]
    exact Option.some_ne_none i

theorem Wf.finite_liveKeys {m : MemIndex n} (hm : m.Wf) : m.liveKeys.Finite := by
  rw [hm.liveKeys_eq_image]
  exact (Set.toFinite _).image _

/-- There are as many as there are live slots. -/
theorem Wf.ncard_liveKeys {m : MemIndex n} (hm : m.Wf) :
    m.liveKeys.ncard = ((List.finRange (2 ^ n)).filter fun i =>
      decide (m.Occupied i) && !(m.entries i).deleted).length := by
  have hset : {i | m.Occupied i ∧ (m.entries i).deleted = false} =
      (((List.finRange (2 ^ n)).filter fun i =>
        decide (m.Occupied i) && !(m.entries i).deleted).toFinset : Set (Fin (2 ^ n))) := by
    ext i
    simp
  rw [hm.liveKeys_eq_image, Set.InjOn.ncard_image, hset, Set.ncard_coe_finset,
    List.toFinset_card_of_nodup ((List.nodup_finRange _).filter _)]
  rintro i ⟨hi, -⟩ j ⟨hj, -⟩ h
  exact hm.inj i j hi hj h

/-- Two tables that store the same but for one key. -/
theorem Wf.ncard_liveKeys_update {m m' : MemIndex n} (hm : m.Wf) (hm' : m'.Wf) {key : UInt64}
    {e : Option MemIndexEntry} (h : m'.stored = Function.update m.stored key e) :
    m'.liveKeys.ncard + (if m.KeyLive key then 1 else 0) =
      m.liveKeys.ncard + (if m'.KeyLive key then 1 else 0) := by
  have hagree : ∀ k, k ≠ key → (k ∈ m'.liveKeys ↔ k ∈ m.liveKeys) := by
    intro k hk
    rw [hm'.mem_liveKeys, hm.mem_liveKeys, KeyLive, KeyLive, h, Function.update_of_ne hk]
  classical
  have hcard := ncard_add_of_agree hm'.finite_liveKeys hm.finite_liveKeys hagree
  simpa only [hm.mem_liveKeys, hm'.mem_liveKeys] using hcard

/-! ### The calls -/

/-- A call of the index, or a rebuild of its probe lengths. -/
inductive CountedOp
  | call (op : IndexOp)
  | rebuildPslArray

/-- The index as a machine over its calls and rebuilds. -/
def countedMachine (n : ℕ) : Machine (MemIndex n) CountedOp where
  step := fun m op =>
    match op with
    | .call op => some (m.applyOp op)
    | .rebuildPslArray => some m.rebuildPslArray

/-- A call that is orderly and finds room; a rebuild that keeps the ways of all entries. -/
def AdmittedOp (m : MemIndex n) : CountedOp → Prop
  | .call op => m.AcceptedOp op
  | .rebuildPslArray => m.EntriesKept

/-- The count is the number of keys that are found. -/
def SizeExact (m : MemIndex n) : Prop := m.size = m.liveKeys.ncard

/-- A call that neither removes a key nor brings one back: an insertion of a live entry or an
update that leaves it live or deleted, a removal that finds nothing, a rebuild. -/
def BalancedOp (m : MemIndex n) : CountedOp → Prop
  | .call (.upsert e) =>
      match m.stored e.key with
      | none => e.deleted = false
      | some o => sequenceNewer e.sequence o.sequence = true → e.deleted = o.deleted
  | .call (.remove key) => ¬ m.KeyLive key
  | .rebuildPslArray => True

/-- A call for a stored key does not count. -/
theorem Wf.size_upsert_stored {m : MemIndex n} (hm : m.Wf) {e o : MemIndexEntry}
    (hord : m.Orderly e.key) (ho : m.stored e.key = some o) :
    (m.upsert e.key e).1.size = m.size := by
  obtain ⟨⟨i, hi, rfl⟩, hk⟩ := hm.stored_eq_some_iff.mp ho
  have hd : ¬ m.Displaces e.key := fun h => (hord h).1 i hi hk
  rw [hm.upsert_stored hi hk hd]
  split_ifs
  · rfl
  · rfl

theorem size_remove (m : MemIndex n) (key : UInt64) : (m.remove key).1.size = m.size := by
  rw [MemIndex.remove]
  split
  · rfl
  · rfl

/-- How an accepted `upsert` changes the number of keys that are found. -/
theorem Wf.ncard_liveKeys_upsert {m : MemIndex n} (hm : m.Wf) {e : MemIndexEntry}
    (hop : m.AcceptedOp (.upsert e)) :
    (m.upsert e.key e).1.liveKeys.ncard + (if m.KeyLive e.key then 1 else 0) =
      m.liveKeys.ncard + (if (m.upsert e.key e).1.KeyLive e.key then 1 else 0) :=
  hm.ncard_liveKeys_update (hm.upsert rfl hop.1) (hm.stored_upsert hop.1 hop.2)

/-- How a removal changes it. -/
theorem Wf.ncard_liveKeys_remove {m : MemIndex n} (hm : m.Wf) (key : UInt64) :
    (m.remove key).1.liveKeys.ncard + (if m.KeyLive key then 1 else 0) = m.liveKeys.ncard := by
  have h := hm.ncard_liveKeys_update (hm.remove key) (hm.stored_remove key)
  have hdead : ¬ (m.remove key).1.KeyLive key := by
    rintro ⟨e, he, hd⟩
    rw [hm.stored_remove, Function.update_self] at he
    cases ho : m.stored key with
    | none => rw [ho] at he; cases he
    | some o =>
        rw [ho] at he
        obtain rfl := Option.some.inj he
        cases hd
  rwa [if_neg hdead, Nat.add_zero] at h

/-- A rebuild that keeps all entries counts the keys that are found. -/
theorem Wf.sizeExact_rebuild {m : MemIndex n} (hm : m.Wf) (h : m.EntriesKept) :
    m.rebuildPslArray.SizeExact := by
  rw [SizeExact, (h.rebuild_wf hm).ncard_liveKeys]
  refine congrArg List.length (List.filter_congr fun i _ => ?_)
  have hempty : (m.entries i).isEmpty = !decide (m.Occupied i) := by
    by_cases ho : m.Occupied i
    · rw [h.nonempty i ho, decide_eq_true ho]
      rfl
    · rw [hm.unused i ho, decide_eq_false ho]
      rfl
  have hocc : decide (m.rebuildPslArray.Occupied i) = decide (m.Occupied i) :=
    decide_eq_decide.mpr (h.occupied_iff hm i)
  rw [hocc, hempty, Bool.not_not]
  rfl

/-- An accepted `upsert` keeps the count exact exactly when it is balanced. -/
theorem Wf.sizeExact_upsert_iff {m : MemIndex n} (hm : m.Wf) (hs : m.SizeExact)
    {e : MemIndexEntry} (hop : m.AcceptedOp (.upsert e)) :
    (m.upsert e.key e).1.SizeExact ↔ m.BalancedOp (.call (.upsert e)) := by
  have hcard := hm.ncard_liveKeys_upsert hop
  have hst := congrFun (hm.stored_upsert hop.1 hop.2) e.key
  rw [Function.update_self] at hst
  rw [SizeExact] at hs ⊢
  rw [BalancedOp]
  cases ho : m.stored e.key with
  | none =>
      have habs := hm.stored_eq_none_iff.mp ho
      have hsize := hm.size_upsert_absent rfl habs (fun h => (hop.1 h).2) hop.2
      have hold : ¬ m.KeyLive e.key := fun ⟨o, he, _⟩ => by rw [ho] at he; cases he
      rw [ho, NewestWins.put_none] at hst
      have hnew : (m.upsert e.key e).1.KeyLive e.key ↔ e.deleted = false := by
        rw [KeyLive, hst]
        simp
      rw [if_neg hold] at hcard
      dsimp only
      rw [← hnew, hsize]
      split_ifs at hcard with h
      · exact iff_of_true (by omega) h
      · exact iff_of_false (by omega) h
  | some o =>
      have hsize := hm.size_upsert_stored hop.1 ho
      have hold : m.KeyLive e.key ↔ o.deleted = false := by
        rw [KeyLive, ho]
        simp
      rw [ho, NewestWins.put_some] at hst
      dsimp only
      rw [hsize, hs]
      by_cases hnewer : sequenceNewer e.sequence o.sequence = true
      · have hnew : (m.upsert e.key e).1.KeyLive e.key ↔ e.deleted = false := by
          rw [KeyLive, hst]
          simp only [newestEntry, tagged_sequence, hnewer, if_true]
          simp
        rw [if_congr hold rfl rfl, if_congr hnew rfl rfl] at hcard
        cases hd : e.deleted <;> cases hd' : o.deleted <;> simp [hd, hd', hnewer] at hcard ⊢ <;>
          omega
      · have hnew : (m.upsert e.key e).1.KeyLive e.key ↔ o.deleted = false := by
          rw [KeyLive, hst]
          simp only [newestEntry, tagged_sequence, hnewer]
          simp
        rw [if_congr hold rfl rfl, if_congr hnew rfl rfl] at hcard
        refine iff_of_true (by omega) fun h => absurd h hnewer

/-- A removal keeps the count exact exactly when it finds nothing. -/
theorem Wf.sizeExact_remove_iff {m : MemIndex n} (hm : m.Wf) (hs : m.SizeExact) (key : UInt64) :
    (m.remove key).1.SizeExact ↔ ¬ m.KeyLive key := by
  have hcard := hm.ncard_liveKeys_remove key
  rw [SizeExact] at hs ⊢
  rw [size_remove, hs]
  split_ifs at hcard with h
  · exact iff_of_false (by omega) (fun hn => hn h)
  · exact iff_of_true (by omega) h

/-- **What a call does to an exact count.** -/
theorem Wf.sizeExact_iff_balanced {m m' : MemIndex n} (hm : m.Wf) (hs : m.SizeExact)
    {op : CountedOp} (hop : m.AdmittedOp op) (hstep : (countedMachine n).step m op = some m') :
    m'.SizeExact ↔ m.BalancedOp op := by
  cases op with
  | call op =>
      obtain rfl := Option.some.inj hstep
      cases op with
      | upsert e => exact hm.sizeExact_upsert_iff hs hop
      | remove key => exact hm.sizeExact_remove_iff hs key
  | rebuildPslArray =>
      obtain rfl := Option.some.inj hstep
      exact iff_of_true (hm.sizeExact_rebuild hop) trivial

theorem Wf.counted_step {m m' : MemIndex n} (hm : m.Wf) {op : CountedOp}
    (hop : m.AdmittedOp op) (hstep : (countedMachine n).step m op = some m') : m'.Wf := by
  cases op with
  | call op =>
      obtain rfl := Option.some.inj hstep
      exact hm.applyOp (AcceptedOp.orderly hop)
  | rebuildPslArray =>
      obtain rfl := Option.some.inj hstep
      exact EntriesKept.rebuild_wf hop hm

theorem sizeExact_fresh (n : ℕ) : (fresh n).SizeExact := by
  rw [SizeExact, (fresh_wf n).ncard_liveKeys]
  have hnil : (List.finRange (2 ^ n)).filter (fun i =>
      decide ((fresh n).Occupied i) && !((fresh n).entries i).deleted) = [] := by
    rw [List.filter_eq_nil_iff]
    intro i _
    simp [Occupied, fresh]
  rw [hnil]
  rfl

/-- **When the count is the number of keys that are found**, all along a run of admitted calls
and rebuilds: exactly when every call is balanced. -/
theorem size_always_exact_iff {ops : List CountedOp}
    (hops : (countedMachine n).Meets AdmittedOp (fresh n) ops) :
    (countedMachine n).Always SizeExact (fresh n) ops ↔
      (countedMachine n).Meets BalancedOp (fresh n) ops := by
  refine (countedMachine n).always_iff_meets_of (fun m op m' hm hop hs => hm.counted_step hop hs)
    (fun m op m' hm hp hop hs => hm.sizeExact_iff_balanced hp hop hs) ?_ hops (fresh_wf n)
    (sizeExact_fresh n)
  rintro m (op | _) h
  · cases h
  · cases h

/-! ### A count that is too high -/

theorem admitted_key1 : (fresh 3).AdmittedOp (.call (.upsert (sampleEntry 1 1))) := by
  rw [AdmittedOp, AcceptedOp, sampleEntry, tagged_key]
  decide +kernel

/-- An insertion and a rebuild keep the count exact. -/
theorem size_always_exact_rebuilt : (countedMachine 3).Always SizeExact (fresh 3)
    [.call (.upsert (sampleEntry 1 1)), .rebuildPslArray] := by
  have h1 : (countedMachine 3).step (fresh 3) (.call (.upsert (sampleEntry 1 1))) =
      some afterKey1 := step_key1
  have hops : (countedMachine 3).Meets AdmittedOp (fresh 3)
      [.call (.upsert (sampleEntry 1 1)), .rebuildPslArray] :=
    Machine.Meets.cons _ admitted_key1 h1
      ⟨⟨by decide +kernel, by decide +kernel⟩, fun _ _ => trivial⟩
  refine (size_always_exact_iff hops).mpr (Machine.Meets.cons _ ?_ h1 ⟨trivial, fun _ _ => trivial⟩)
  rw [BalancedOp, stored_fresh]
  exact tagged_deleted _ _

/-- **A count that is too high**: key 1 is written and deleted, and `size` is 1. -/
theorem size_counts_removed : ∃ m, (countedMachine 3).run (fresh 3)
    [.call (.upsert (sampleEntry 1 1)), .call (.remove 1)] = some m ∧
      m.size = 1 ∧ m.liveKeys.ncard = 0 := by
  have h1 : (countedMachine 3).step (fresh 3) (.call (.upsert (sampleEntry 1 1))) =
      some afterKey1 := step_key1
  have hwf : afterKey1.Wf := (fresh_wf 3).counted_step admitted_key1 h1
  refine ⟨(afterKey1.remove 1).1, ?_, by decide +kernel, ?_⟩
  · rw [Machine.run, h1, Option.bind_some, Machine.run_singleton]
    rfl
  · rw [(hwf.remove 1).ncard_liveKeys]
    decide +kernel

end MemIndex

end SpdkKv
