import Mathlib.Algebra.BigOperators.Fin
import Mathlib.Algebra.Order.BigOperators.Group.Finset
import SpdkKv.Entry
import SpdkKv.Lib.Loop

/-!
# The Memory Index

`MemIndex` of `mem_index.h`: a Robin Hood hash table of a power-of-two capacity that maps
keys to index entries. `MemIndex n` is a table of capacity `2 ^ n`; `psl` is the stored
probe sequence length, counted from `1`, of the entry of each slot (`0` for a slot never
used). The probing loops are `Loop`s, with the `while (true)` bodies of the source.

In `upsert` the counter `dist` is a `uint8_t`; the loop is left as soon as it passes `128`
and a swap sets it to a stored length that is at most `dist`, so it never wraps.
-/

namespace SpdkKv

/-! ### Hashing -/

namespace HashUtil

/-- `HashUtil::hash`: FNV-1a over the eight bytes of the key. -/
def hash (key : UInt64) : UInt64 :=
  (List.range 8).foldl
    (fun h i => (h ^^^ ((key >>> UInt64.ofNat (i * 8)) &&& 0xFF)) * 1099511628211)
    14695981039346656037

/-- The fingerprint of a key that `compute_hash` derives from its hash. -/
def tag (key : UInt64) : UInt8 := ((hash key >>> 56) &&& 0xFF).toUInt8

end HashUtil

/-! ### The table -/

/-- A Robin Hood table of capacity `2 ^ n`. -/
structure MemIndex (n : ℕ) where
  entries : Fin (2 ^ n) → MemIndexEntry
  psl : Fin (2 ^ n) → ℕ
  size : ℕ
  globalSequence : UInt32

namespace MemIndex

variable {n : ℕ}

/-- The table the constructor yields: zeroed memory. -/
def fresh (n : ℕ) : MemIndex n where
  entries := fun _ => MemIndexEntry.zero
  psl := fun _ => 0
  size := 0
  globalSequence := 0

/-- `x & (capacity_ - 1)`. -/
def slotOf (n x : ℕ) : Fin (2 ^ n) :=
  ⟨x &&& (2 ^ n - 1), by
    have := Nat.two_pow_pos n
    exact lt_of_le_of_lt Nat.and_le_right (by omega)⟩

/-- The home slot of a key. -/
def home (n : ℕ) (key : UInt64) : Fin (2 ^ n) := slotOf n (HashUtil.hash key).toNat

/-- The slot that linear probing visits after `idx`. -/
def next (idx : Fin (2 ^ n)) : Fin (2 ^ n) := slotOf n (idx.val + 1)

/-- `psl_[idx] == 0 && entries_[idx].is_empty()`. -/
def vacant (m : MemIndex n) (idx : Fin (2 ^ n)) : Bool :=
  m.psl idx == 0 && (m.entries idx).isEmpty

/-- `entries_[idx] = e`. -/
def setEntry (m : MemIndex n) (idx : Fin (2 ^ n)) (e : MemIndexEntry) : MemIndex n :=
  { m with entries := Function.update m.entries idx e }

/-- `psl_[idx] = p`. -/
def setPsl (m : MemIndex n) (idx : Fin (2 ^ n)) (p : ℕ) : MemIndex n :=
  { m with psl := Function.update m.psl idx p }

/-! ### Lookup -/

/-- The probing loop of `find_internal`; the state is `(idx, dist)`. -/
def findLoop (m : MemIndex n) (key : UInt64) (tag : UInt8) :
    Loop (Fin (2 ^ n) × ℕ) (Option (Fin (2 ^ n))) where
  body := fun (idx, dist) =>
    if m.psl idx < dist then
      Sum.inr none
    else if (m.entries idx).tag = tag ∧ (m.entries idx).key = key ∧
        ¬ (m.entries idx).deleted then
      Sum.inr (some idx)
    else if dist + 1 > 128 then
      Sum.inr none
    else
      Sum.inl (next idx, dist + 1)
  variant := fun (_, dist) => 129 - dist
  variant_lt := by
    rintro ⟨idx, dist⟩ ⟨idx', dist'⟩ h
    dsimp only at h
    split_ifs at h with h1 h2 h3
    obtain ⟨-, rfl⟩ := Prod.mk.inj (Sum.inl.inj h)
    dsimp only
    omega

/-- `find_internal`. -/
def findInternal (m : MemIndex n) (key : UInt64) (idx : Fin (2 ^ n)) (tag : UInt8) :
    Option (Fin (2 ^ n)) :=
  (m.findLoop key tag).run (idx, 0)

/-- `find`: the slot of the live entry of a key. -/
def find (m : MemIndex n) (key : UInt64) : Option (Fin (2 ^ n)) :=
  m.findInternal key (home n key) (HashUtil.tag key)

/-- The entry that `find` points to. -/
def findEntry (m : MemIndex n) (key : UInt64) : Option MemIndexEntry :=
  (m.find key).map m.entries

/-- Lookups do not depend on the sequence of the index. -/
theorem findEntry_withGlobalSequence (m : MemIndex n) (sequence : UInt32) (key : UInt64) :
    ({ m with globalSequence := sequence } : MemIndex n).findEntry key = m.findEntry key := rfl

/-! ### Insertion and removal -/

/-- `sequence_newer`: 32-bit comparison that handles wraparound. -/
def sequenceNewer (a b : UInt32) : Bool := 0 < (a - b).toNat && (a - b).toNat < 2 ^ 31

/-- The variables of the probing loop of `upsert`. -/
structure UpsertState (n : ℕ) where
  table : MemIndex n
  idx : Fin (2 ^ n)
  dist : ℕ
  entryToInsert : MemIndexEntry

/-- One turn of the probing loop of `upsert`, without the load check at its end. -/
def upsertProbe (key : UInt64) (s : UpsertState n) : UpsertState n ⊕ (MemIndex n × Bool) :=
  let m := s.table
  if m.vacant s.idx then
    -- Empty slot, insert directly
    let m' := (m.setEntry s.idx s.entryToInsert).setPsl s.idx (s.dist + 1)
    Sum.inr ({ m' with size := m.size + 1 }, true)
  else if (m.entries s.idx).key = key then
    -- Found same key, update only if the new sequence is newer
    if sequenceNewer s.entryToInsert.sequence (m.entries s.idx).sequence then
      Sum.inr (m.setEntry s.idx s.entryToInsert, true)
    else
      Sum.inr (m, true)
  else if m.psl s.idx < s.dist + 1 then
    -- Robin Hood: the resident has probed less, swap and go on with the resident
    Sum.inl { table := (m.setEntry s.idx s.entryToInsert).setPsl s.idx s.dist
              idx := next s.idx
              dist := m.psl s.idx + 1 + 1
              entryToInsert := m.entries s.idx }
  else
    Sum.inl { s with idx := next s.idx, dist := s.dist + 1 }

/-- One turn of the probing loop of `upsert`. -/
def upsertBody (key : UInt64) (s : UpsertState n) : UpsertState n ⊕ (MemIndex n × Bool) :=
  match upsertProbe key s with
  | Sum.inr r => Sum.inr r
  | Sum.inl s' => if s'.dist > 128 then Sum.inr (s'.table, false) else Sum.inl s'

/-- What the stored lengths of a table still lack to the largest one ever stored. -/
def pslDeficit (m : MemIndex n) : ℕ := ∑ i, (129 - m.psl i)

/-- How writing a slot changes the deficit. -/
theorem pslDeficit_setPsl_le (m : MemIndex n) (idx : Fin (2 ^ n)) (e : MemIndexEntry) (p : ℕ) :
    ((m.setEntry idx e).setPsl idx p).pslDeficit + (129 - m.psl idx) ≤
      m.pslDeficit + (129 - p) := by
  have hupd : ∀ f : Fin (2 ^ n) → ℕ,
      ∑ i, (129 - Function.update f idx p i) + (129 - f idx) =
        ∑ i, (129 - f i) + (129 - p) := by
    intro f
    rw [← Finset.add_sum_erase _ _ (Finset.mem_univ idx),
      ← Finset.add_sum_erase Finset.univ (fun i => 129 - f i) (Finset.mem_univ idx)]
    have hrest : ∑ i ∈ Finset.univ.erase idx, (129 - Function.update f idx p i) =
        ∑ i ∈ Finset.univ.erase idx, (129 - f i) :=
      Finset.sum_congr rfl fun i hi => by
        rw [Function.update_of_ne (Finset.ne_of_mem_erase hi)]
    rw [hrest, Function.update_self]
    omega
  exact le_of_eq (hupd m.psl)

/-- The probing loop of `upsert`. Every swap raises a stored length or is followed by a
greater distance, so the loop ends for every table. -/
def upsertLoop (key : UInt64) : Loop (UpsertState n) (MemIndex n × Bool) where
  body := upsertBody key
  variant := fun s => 130 * s.table.pslDeficit + (129 - s.dist)
  variant_lt := by
    intro s s' h
    rw [upsertBody] at h
    split at h
    · cases h
    · next s₁ hp =>
        split_ifs at h with hd
        obtain rfl := Sum.inl.inj h
        simp only [upsertProbe] at hp
        split_ifs at hp with hv hk hn hs
        · obtain rfl := Sum.inl.inj hp
          have := pslDeficit_setPsl_le s.table s.idx s.entryToInsert s.dist
          dsimp only at hd ⊢
          omega
        · obtain rfl := Sum.inl.inj hp
          dsimp only at hd ⊢
          omega

/-- The entry that `upsert` stores: the new entry with the fingerprint of the key. -/
def tagged (key : UInt64) (newEntry : MemIndexEntry) : MemIndexEntry :=
  { newEntry with tag := HashUtil.tag key }

@[simp] theorem tagged_key (key : UInt64) (e : MemIndexEntry) : (tagged key e).key = e.key := by
  cases e; rfl

@[simp] theorem tagged_sequence (key : UInt64) (e : MemIndexEntry) :
    (tagged key e).sequence = e.sequence := by
  cases e; rfl

@[simp] theorem tagged_deleted (key : UInt64) (e : MemIndexEntry) :
    (tagged key e).deleted = e.deleted := by
  cases e; rfl

@[simp] theorem tagged_tag (key : UInt64) (e : MemIndexEntry) :
    (tagged key e).tag = HashUtil.tag key := by
  cases e; rfl

/-- `upsert`: the table afterwards and the returned flag. -/
def upsert (m : MemIndex n) (key : UInt64) (newEntry : MemIndexEntry) : MemIndex n × Bool :=
  (upsertLoop key).run ⟨m, home n key, 0, tagged key newEntry⟩

/-- `remove`: marks the entry that `find` returns as deleted. -/
def remove (m : MemIndex n) (key : UInt64) : MemIndex n × Bool :=
  match m.find key with
  | some idx => (m.setEntry idx { m.entries idx with deleted := true }, true)
  | none => (m, false)

/-- `allocate_sequence`. -/
def allocateSequence (m : MemIndex n) : MemIndex n × UInt32 :=
  ({ m with globalSequence := m.globalSequence + 1 }, m.globalSequence + 1)

end MemIndex

end SpdkKv
