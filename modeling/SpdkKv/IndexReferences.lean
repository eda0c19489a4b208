import SpdkKv.IndexMap
import SpdkKv.Migration

/-!
# What an Index Refers To

The live entries of a table that lie in a file, slot by slot and for any table, also one whose
lookups do not reach every entry. A call of `upsert` or `remove` may move entries from slot to
slot, but it puts none into the table that was not there, except the new one; the switch to the
copies of a compaction takes entries out of their file.

## Main results

* `MemIndex.find_congr`: a lookup does not depend on where the records lie.
* `MemIndex.of_upsert`, `MemIndex.of_remove`: every entry of a slot was there before a call, or is
  the new one.
* `MemIndex.of_refers_applyOp`: **a call that puts no entry into a file** adds no reference to it.
* `MemIndex.of_refers_updateIndices`: **what still refers to a file after a switch** did so
  before, and was not found for any of the copies.
-/

namespace SpdkKv

/-- Two entries differ at most in where their records lie. -/
structure MemIndexEntry.SameButPlace (e e' : MemIndexEntry) : Prop where
  key : e.key = e'.key
  deleted : e.deleted = e'.deleted
  tag : e.tag = e'.tag

/-- The offset of the record in its file. -/
def MemIndexEntry.byteOffset (e : MemIndexEntry) : ℕ := e.offsetIndex.toNat * kPageSize

/-- The copy is one of the record of the entry. -/
def MigratedEntry.Covers (g : MigratedEntry) (e : MemIndexEntry) : Prop :=
  g.key = e.key ∧ e.liesAt g.oldFileId g.oldOffsetIndex = true

namespace MemIndex

variable {n : ℕ} {m m' : MemIndex n} {key : UInt64}

/-! ### Lookups -/

/-- **A lookup does not depend on where the records lie.** -/
theorem find_congr (hpsl : m'.psl = m.psl)
    (h : ∀ i, (m'.entries i).SameButPlace (m.entries i)) : m'.find key = m.find key := by
  refine Option.ext fun i => ?_
  have hmatches : ∀ j, m'.Matches key j ↔ m.Matches key j := fun j => by
    rw [Matches, Matches, (h j).tag, (h j).key, (h j).deleted]
  rw [find_eq_some_iff, find_eq_some_iff, hpsl]
  simp only [hmatches]

/-! ### The entries of the slots -/

/-- The slot is not free, and its entry is live and lies in the file. -/
structure Refers (m : MemIndex n) (fileId : UInt16) (i : Fin (2 ^ n)) : Prop where
  used : m.vacant i = false
  live : (m.entries i).deleted = false
  file : (m.entries i).fileId = BitVec.ofNat 10 fileId.toNat

/-- The entry is that of a slot that is not free. -/
def InTable (m : MemIndex n) (e : MemIndexEntry) : Prop := ∃ i, m.vacant i = false ∧ m.entries i = e

/-- The slots that are not free hold entries of a kind. -/
def AllUsed (P : MemIndexEntry → Prop) (m : MemIndex n) : Prop :=
  ∀ j, m.vacant j = false → P (m.entries j)

/-- Writing an entry of the kind to a slot. -/
theorem AllUsed.place {P : MemIndexEntry → Prop} (h : AllUsed P m) {i : Fin (2 ^ n)}
    {e : MemIndexEntry} (he : P e) (p : ℕ) : AllUsed P ((m.setEntry i e).setPsl i p) := by
  intro j hj
  by_cases hji : j = i
  · subst hji
    simpa [setEntry, setPsl] using he
  · have hsame : ((m.setEntry i e).setPsl i p).vacant j = m.vacant j := by
      simp [vacant, setEntry, setPsl, hji]
    have hentry : ((m.setEntry i e).setPsl i p).entries j = m.entries j := by
      simp [setEntry, setPsl, hji]
    rw [hentry]
    exact h j (hsame ▸ hj)

/-- The same, with the stored length left as it is. -/
theorem AllUsed.setEntry {P : MemIndexEntry → Prop} (h : AllUsed P m) {i : Fin (2 ^ n)}
    {e : MemIndexEntry} (he : P e) : AllUsed P (m.setEntry i e) := by
  have hsame : (m.setEntry i e).setPsl i (m.psl i) = m.setEntry i e := by
    simp [MemIndex.setEntry, setPsl]
  rw [← hsame]
  exact h.place he _

@[simp] theorem tagged_fileId (key : UInt64) (e : MemIndexEntry) :
    (tagged key e).fileId = e.fileId := by
  cases e; rfl

/-- **`upsert` puts no entry into a table but the new one.** -/
theorem of_upsert {e : MemIndexEntry} :
    AllUsed (fun x => x = tagged key e ∨ m.InTable x) (m.upsert key e).1 := by
  have hstart : AllUsed (fun x => x = tagged key e ∨ m.InTable x) m := fun j hj =>
    .inr ⟨j, hj, rfl⟩
  refine (upsertLoop key).run_induction
    (fun s => AllUsed (fun x => x = tagged key e ∨ m.InTable x) s.table ∧
      (s.entryToInsert = tagged key e ∨ m.InTable s.entryToInsert))
    (fun r => AllUsed (fun x => x = tagged key e ∨ m.InTable x) r.1) ?_ ⟨hstart, .inl rfl⟩
  rintro s ⟨htable, hcarried⟩
  show Sum.elim _ _ (upsertBody key s)
  rw [upsertBody, upsertProbe]
  by_cases hv : s.table.vacant s.idx = true
  · rw [if_pos hv]
    exact htable.place hcarried _
  · rw [if_neg hv]
    by_cases hk : (s.table.entries s.idx).key = key
    · rw [if_pos hk]
      by_cases hnew : sequenceNewer s.entryToInsert.sequence (s.table.entries s.idx).sequence = true
      · rw [if_pos hnew]
        exact htable.setEntry hcarried
      · rw [if_neg hnew]
        exact htable
    · rw [if_neg hk]
      by_cases hs : s.table.psl s.idx < s.dist + 1
      · -- the resident is carried on
        have hresident := htable s.idx (Bool.eq_false_iff.mpr hv)
        have hplaced := htable.place hcarried s.dist (i := s.idx)
        rw [if_pos hs]
        dsimp only
        split_ifs
        · exact hplaced
        · exact ⟨hplaced, hresident⟩
      · rw [if_neg hs]
        dsimp only
        split_ifs
        · exact htable
        · exact ⟨htable, hcarried⟩

/-- A removed entry stays as a tombstone. -/
theorem of_remove : AllUsed (fun x => x.deleted = true ∨ m.InTable x) (m.remove key).1 := by
  have hstart : AllUsed (fun x => x.deleted = true ∨ m.InTable x) m := fun j hj =>
    .inr ⟨j, hj, rfl⟩
  rw [remove]
  split
  · exact hstart.setEntry (.inl rfl)
  · exact hstart

end MemIndex

/-- The call puts no entry into a file. -/
def IndexOp.PutsOutside (fileId : UInt16) : IndexOp → Prop
  | .upsert e => e.fileId ≠ BitVec.ofNat 10 fileId.toNat
  | .remove _ => True

namespace MemIndex

variable {n : ℕ} {m m' : MemIndex n} {fileId : UInt16} {i : Fin (2 ^ n)}

/-- **A call that puts no entry into a file adds no reference to it.** -/
theorem of_refers_applyOp {op : IndexOp} (hop : op.PutsOutside fileId)
    (h : (m.applyOp op).Refers fileId i) :
    ∃ j, m.Refers fileId j ∧ m.entries j = (m.applyOp op).entries i := by
  cases op with
  | upsert e =>
      rcases of_upsert i h.used with hnew | ⟨j, hj, hsame⟩
      · have hfile := h.file
        rw [applyOp, hnew, tagged_fileId] at hfile
        exact absurd hfile hop
      · exact ⟨j, ⟨hj, hsame ▸ h.live, hsame ▸ h.file⟩, hsame⟩
  | remove key =>
      rcases of_remove i h.used with hdeleted | ⟨j, hj, hsame⟩
      · cases hdeleted.symm.trans h.live
      · exact ⟨j, ⟨hj, hsame ▸ h.live, hsame ▸ h.file⟩, hsame⟩

/-! ### Switching to the copies -/

/-- Switching an entry changes at most one slot, the one that `find` returns. -/
theorem updateIndex_cases (m : MemIndex n) (g : MigratedEntry) :
    (m.updateIndex g = m ∧ ∀ i, m.find g.key = some i → ¬ g.Covers (m.entries i)) ∨
      ∃ i, m.find g.key = some i ∧ m.updateIndex g =
        m.setEntry i ((m.entries i).moveTo g.newFileId g.newOffsetIndex g.pageCount) := by
  rw [updateIndex, changeFound]
  cases hfind : m.find g.key with
  | none => exact .inl ⟨rfl, fun i hi => by cases hi⟩
  | some i =>
      dsimp only
      split_ifs with hlies
      · exact .inr ⟨i, rfl, rfl⟩
      · refine .inl ⟨rfl, fun j hj hcovers => hlies ?_⟩
        obtain rfl := Option.some.inj hj
        exact hcovers.2

/-- Lookups are as before. -/
theorem find_updateIndex (m : MemIndex n) (g : MigratedEntry) (key : UInt64) :
    (m.updateIndex g).find key = m.find key := by
  rcases m.updateIndex_cases g with ⟨hsame, -⟩ | ⟨i, -, hmoved⟩
  · rw [hsame]
  · rw [hmoved]
    refine find_congr rfl fun j => ?_
    by_cases hj : j = i
    · subst hj
      simp only [setEntry, Function.update_self]
      exact ⟨rfl, rfl, rfl⟩
    · simp only [setEntry, Function.update_of_ne hj]
      exact ⟨rfl, rfl, rfl⟩

theorem vacant_setEntry_moveTo (m : MemIndex n) (i j : Fin (2 ^ n)) (newFileId : UInt16)
    (newOffsetIndex : UInt32) (pageCount : UInt16) :
    (m.setEntry i ((m.entries i).moveTo newFileId newOffsetIndex pageCount)).vacant j =
      m.vacant j := by
  by_cases hj : j = i
  · subst hj
    simp [vacant, setEntry, MemIndexEntry.isEmpty]
  · simp [vacant, setEntry, hj]

/-- What still refers to a file after an entry was switched to another one. -/
theorem of_refers_updateIndex {g : MigratedEntry}
    (hnew : BitVec.ofNat 10 g.newFileId.toNat ≠ BitVec.ofNat 10 fileId.toNat)
    (h : (m.updateIndex g).Refers fileId i) :
    m.Refers fileId i ∧ (m.updateIndex g).entries i = m.entries i ∧
      (g.Covers (m.entries i) → m.find g.key ≠ some i) := by
  rcases m.updateIndex_cases g with ⟨hsame, hno⟩ | ⟨j, hfind, hmoved⟩
  · rw [hsame] at h ⊢
    exact ⟨h, rfl, fun hcovers hfind => hno i hfind hcovers⟩
  · rw [hmoved] at h ⊢
    have hij : i ≠ j := by
      rintro rfl
      have hfile := h.file
      simp only [setEntry, Function.update_self] at hfile
      exact hnew hfile
    have hentry : (m.setEntry j ((m.entries j).moveTo g.newFileId g.newOffsetIndex
        g.pageCount)).entries i = m.entries i := by
      simp only [setEntry, Function.update_of_ne hij]
    refine ⟨⟨?_, hentry ▸ h.live, hentry ▸ h.file⟩, hentry, fun _ hi => ?_⟩
    · rw [← vacant_setEntry_moveTo]
      exact h.used
    · exact hij (Option.some.inj (hi.symm.trans hfind))

/-- **What still refers to a file after a switch to copies in another one**: what did so before
and was not found for any of the copies. -/
theorem of_refers_updateIndices {moved : List MigratedEntry}
    (hnew : ∀ g ∈ moved, BitVec.ofNat 10 g.newFileId.toNat ≠ BitVec.ofNat 10 fileId.toNat)
    (h : (m.updateIndices moved).Refers fileId i) :
    m.Refers fileId i ∧ (m.updateIndices moved).entries i = m.entries i ∧
      ∀ g ∈ moved, g.Covers (m.entries i) → m.find g.key ≠ some i := by
  induction moved generalizing m with
  | nil => exact ⟨h, rfl, fun g hg => absurd hg List.not_mem_nil⟩
  | cons g moved ih =>
      obtain ⟨hlater, hentry, hno⟩ := ih (List.forall_mem_cons.mp hnew).2 h
      obtain ⟨hbefore, hentry', hno'⟩ := of_refers_updateIndex (hnew g List.mem_cons_self) hlater
      refine ⟨hbefore, hentry.trans hentry',
        List.forall_mem_cons.mpr ⟨hno', fun g' hg' hcovers => ?_⟩⟩
      rw [← find_updateIndex m g]
      exact hno g' hg' (hentry' ▸ hcovers)

/-! ### A table with one entry -/

section OneEntry

variable {key : UInt64} {e : MemIndexEntry}

/-- A slot of a table with one entry that refers to a file. -/
theorem of_refers_upsert_fresh (h : ((fresh n).upsert key e).1.Refers fileId i) :
    i = home n key ∧ ((fresh n).upsert key e).1.entries i = tagged key e := by
  by_cases hi : i = home n key
  · subst hi
    rw [upsert_fresh]
    exact ⟨rfl, Function.update_self _ _ _⟩
  · have hused := h.used
    rw [upsert_fresh, vacant] at hused
    simp [setEntry, setPsl, hi, fresh, MemIndexEntry.zero, MemIndexEntry.isEmpty] at hused

/-- Its slot refers to the file of the entry, if it is live. -/
theorem refers_upsert_fresh (hlive : e.deleted = false)
    (hfile : e.fileId = BitVec.ofNat 10 fileId.toNat) :
    ((fresh n).upsert key e).1.Refers fileId (home n key) := by
  rw [upsert_fresh]
  refine ⟨?_, ?_, ?_⟩
  · simp [vacant, setPsl]
  · simp [setEntry, setPsl, hlive]
  · simp [setEntry, setPsl, hfile]

/-- Its entry is found, if it is live. -/
theorem find_upsert_fresh (hkey : e.key = key) (hlive : e.deleted = false) :
    ((fresh n).upsert key e).1.find key = some (home n key) := by
  have hentry : ((fresh n).upsert key e).1.entries (home n key) = tagged key e := by
    rw [upsert_fresh]
    exact Function.update_self _ _ _
  refine find_eq_of_match (d := 0) (Nat.zero_le _) ?_ (fun j hj => ?_) fun j hj _ => ?_
  · rw [probe_zero, Matches, hentry]
    simp [hkey, hlive]
  · rw [Nat.le_zero.mp hj]
    exact Nat.zero_le _
  · rw [Nat.le_zero.mp hj]

end OneEntry

end MemIndex

end SpdkKv
