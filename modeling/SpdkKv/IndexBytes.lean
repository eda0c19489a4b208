import Mathlib.Algebra.BigOperators.Ring.Finset
import Mathlib.Data.FinEnum
import SpdkKv.IndexMap

/-!
# The Bytes That an Index Refers To

The live entries of an index refer to pages of the data files. Their bytes are summed slot by
slot, and for a well-formed table key by key: what a call of `upsert` or `remove` changes is
the share of its key.

## Main results

* `MemIndex.Wf.liveBytes_eq_sum`: the bytes of a well-formed table, key by key.
* `MemIndex.Wf.liveBytes_upsert`, `MemIndex.Wf.liveBytes_remove`: **what the calls of the index
  do to its bytes**.
-/

namespace SpdkKv

namespace MemIndex

variable {n : ℕ}

/-- A slot holds a live entry. -/
def LiveAt (m : MemIndex n) (i : Fin (2 ^ n)) : Prop :=
  m.Occupied i ∧ (m.entries i).deleted = false

instance (m : MemIndex n) (i : Fin (2 ^ n)) : Decidable (m.LiveAt i) :=
  inferInstanceAs (Decidable (_ ∧ _))

/-- The bytes that an entry refers to. -/
def entryBytes (e : MemIndexEntry) : ℕ := e.pageCount.toNat * kPageSize

/-- The bytes that the live entries of a file refer to. -/
def fileBytes (m : MemIndex n) (fileId : ℕ) : ℕ :=
  ∑ i, if m.LiveAt i ∧ (m.entries i).fileId.toNat = fileId then entryBytes (m.entries i) else 0

/-- The bytes that the live entries refer to. -/
def liveBytes (m : MemIndex n) : ℕ := ∑ i, if m.LiveAt i then entryBytes (m.entries i) else 0

/-- The bytes of an entry that may be missing. -/
def foundBytes (o : Option MemIndexEntry) : ℕ := o.elim 0 entryBytes

/-- The share of a key, slot by slot. -/
theorem Wf.foundBytes_findEntry {m : MemIndex n} (hm : m.Wf) (key : UInt64) :
    foundBytes (m.findEntry key) =
      ∑ i, if m.LiveAt i ∧ (m.entries i).key = key then entryBytes (m.entries i) else 0 := by
  cases hfind : m.findEntry key with
  | none =>
      refine (Finset.sum_eq_zero fun i _ => if_neg ?_).symm
      rintro ⟨hlive, hkey⟩
      have hsome := hm.findEntry_eq_some_iff.mpr ⟨⟨i, hlive.1, rfl⟩, hkey, hlive.2⟩
      exact nomatch hfind.symm.trans hsome
  | some e =>
      obtain ⟨⟨i, ho, rfl⟩, hkey, hdel⟩ := hm.findEntry_eq_some_iff.mp hfind
      rw [Finset.sum_eq_single i]
      · rw [if_pos ⟨⟨ho, hdel⟩, hkey⟩]
        rfl
      · intro j _ hne
        exact if_neg fun hj => hne (hm.inj j i hj.1.1 ho (hj.2.trans hkey.symm))
      · exact fun hnot => absurd (Finset.mem_univ i) hnot

/-- **The bytes of a table, key by key.** -/
theorem Wf.liveBytes_eq_sum {m : MemIndex n} (hm : m.Wf) :
    m.liveBytes = ∑ key, foundBytes (m.findEntry key) := by
  simp only [hm.foundBytes_findEntry]
  rw [Finset.sum_comm]
  refine Finset.sum_congr rfl fun i _ => ?_
  rw [Finset.sum_eq_single (m.entries i).key]
  · simp only [and_true]
  · intro key _ hne
    exact if_neg fun h => hne h.2.symm
  · exact fun hnot => absurd (Finset.mem_univ _) hnot

/-- A table that differs in the entry of one key. -/
theorem Wf.liveBytes_update {m m' : MemIndex n} (hm : m.Wf) (hm' : m'.Wf) {key : UInt64}
    {o : Option MemIndexEntry} (h : m'.findEntry = Function.update m.findEntry key o) :
    m'.liveBytes + foundBytes (m.findEntry key) = m.liveBytes + foundBytes o := by
  have hrest : ∑ k ∈ Finset.univ.erase key, foundBytes (m'.findEntry k) =
      ∑ k ∈ Finset.univ.erase key, foundBytes (m.findEntry k) :=
    Finset.sum_congr rfl fun k hk => by rw [h, Function.update_of_ne (Finset.ne_of_mem_erase hk)]
  rw [hm.liveBytes_eq_sum, hm'.liveBytes_eq_sum, ← Finset.add_sum_erase _ _ (Finset.mem_univ key),
    ← Finset.add_sum_erase _ (fun k => foundBytes (m.findEntry k)) (Finset.mem_univ key), hrest, h,
    Function.update_self]
  omega

/-- **What `upsert` does to the bytes** when it is accepted: those of the new entry replace those
of the old one. -/
theorem Wf.liveBytes_upsert {m : MemIndex n} (hm : m.Wf) {e : MemIndexEntry}
    (hord : m.Orderly e.key) (hok : (m.upsert e.key e).2 = true)
    (hnewer : ∀ o, m.stored e.key = some o → sequenceNewer e.sequence o.sequence = true)
    (hdel : e.deleted = false) :
    (m.upsert e.key e).1.liveBytes + foundBytes (m.findEntry e.key) =
      m.liveBytes + entryBytes e := by
  have hm' := hm.upsert rfl hord
  have hst := hm.stored_upsert hord hok
  refine hm.liveBytes_update hm' (o := some (tagged e.key e)) (funext fun key => ?_)
  rcases eq_or_ne key e.key with rfl | hkey
  · rw [Function.update_self, hm'.findEntry_eq, hst, Function.update_self]
    have hlive : (some (tagged e.key e)).filter (fun e => !e.deleted) = some (tagged e.key e) := by
      rw [filter_some_live, tagged_deleted, hdel]
      rfl
    cases hstored : m.stored e.key with
    | none => rw [NewestWins.put_none, hlive]
    | some o =>
        rw [NewestWins.put_some, if_pos (by simpa [newestEntry] using hnewer o hstored), hlive]
  · rw [Function.update_of_ne hkey, hm'.findEntry_eq, hm.findEntry_eq, hst,
      Function.update_of_ne hkey]

/-- An `upsert` that succeeds but is not newer changes nothing. -/
theorem Wf.liveBytes_upsert_of_stale {m : MemIndex n} (hm : m.Wf) {e o : MemIndexEntry}
    (hord : m.Orderly e.key) (hok : (m.upsert e.key e).2 = true)
    (hstored : m.stored e.key = some o)
    (hstale : sequenceNewer e.sequence o.sequence = false) :
    (m.upsert e.key e).1.liveBytes = m.liveBytes := by
  have hm' := hm.upsert rfl hord
  have hst := hm.stored_upsert hord hok
  rw [hm.liveBytes_eq_sum, hm'.liveBytes_eq_sum]
  refine Finset.sum_congr rfl fun key _ => congrArg foundBytes ?_
  rw [hm'.findEntry_eq, hm.findEntry_eq, hst]
  rcases eq_or_ne key e.key with rfl | hkey
  · rw [Function.update_self, hstored, NewestWins.put_some,
      if_neg (by simpa [newestEntry] using hstale)]
  · rw [Function.update_of_ne hkey]

/-- **What `remove` does to the bytes.** -/
theorem Wf.liveBytes_remove {m : MemIndex n} (hm : m.Wf) (key : UInt64) :
    (m.remove key).1.liveBytes + foundBytes (m.findEntry key) = m.liveBytes := by
  have hm' := hm.remove key
  refine (hm.liveBytes_update hm' (o := none) (funext fun k => ?_)).trans (Nat.add_zero _)
  rcases eq_or_ne k key with rfl | hkey
  · rw [Function.update_self, hm'.findEntry_eq, hm.stored_remove, Function.update_self]
    cases m.stored k <;> rfl
  · rw [Function.update_of_ne hkey, hm'.findEntry_eq, hm.findEntry_eq, hm.stored_remove,
      Function.update_of_ne hkey]

end MemIndex

end SpdkKv
