import SpdkKv.Probe

/-!
# The Specification of `upsert`

`upsert` probes for the key and, when it meets an entry that has probed less, swaps the new
entry in and goes on with the resident. Two things go wrong after a swap: the same-key
test still compares with the key of the call, and the length stored for the swapped-in
entry is one too low, so that a later `upsert` of the same key may swap before it reaches
the entry it should update. `Displaces` says that the call swaps before it meets a free slot
or the key; a call is `Orderly` when it does so only for a key that is nowhere in the table
and only while the table has a free slot.

## Main results

* `Wf.upsert_stored`: the call for a stored key that displaces nothing updates its slot when
  the sequence is newer.
* `Wf.upsert_absent`: **the call for an absent key adds exactly the new entry** — whatever
  chain of swaps it takes, as long as the table has a free slot.
* `Wf.upsert`: an orderly call keeps a table well formed, whether it succeeds or not.
-/

namespace SpdkKv

namespace MemIndex

variable {n : ℕ}

/-! ### Displacement -/

/-- The walk of `upsert` up to its first swap: does it swap at all? -/
def displacesLoop (m : MemIndex n) (key : UInt64) : Loop (Fin (2 ^ n) × ℕ) Bool where
  body := fun (idx, dist) =>
    if m.vacant idx then
      Sum.inr false
    else if (m.entries idx).key = key then
      Sum.inr false
    else if m.psl idx < dist + 1 then
      Sum.inr true
    else if dist + 1 > 128 then
      Sum.inr false
    else
      Sum.inl (next idx, dist + 1)
  variant := fun (_, dist) => 129 - dist
  variant_lt := by
    rintro ⟨idx, dist⟩ ⟨idx', dist'⟩ h
    dsimp only at h
    split_ifs at h with h1 h2 h3 h4
    obtain ⟨-, rfl⟩ := Prod.mk.inj (Sum.inl.inj h)
    dsimp only
    omega

/-- `upsert` of the key swaps before it meets a free slot or the key. -/
def Displaces (m : MemIndex n) (key : UInt64) : Prop :=
  (m.displacesLoop key).run (home n key, 0) = true

instance (m : MemIndex n) (key : UInt64) : Decidable (m.Displaces key) :=
  inferInstanceAs (Decidable (_ = true))

/-- `upsert` of the key displaces entries only for an absent key and in a table with a free
slot. -/
def Orderly (m : MemIndex n) (key : UInt64) : Prop :=
  m.Displaces key → m.Absent key ∧ ∃ i, ¬ m.Occupied i

instance (m : MemIndex n) (i : Fin (2 ^ n)) : Decidable (m.Occupied i) :=
  inferInstanceAs (Decidable (_ < _))

instance (m : MemIndex n) (key : UInt64) : Decidable (m.Absent key) :=
  inferInstanceAs (Decidable (∀ _, _))

instance (m : MemIndex n) (key : UInt64) : Decidable (m.Orderly key) :=
  inferInstanceAs (Decidable (_ → _))

/-! ### The turns of the walk -/

section Turns

variable {key : UInt64} {s : UpsertState n}

/-- A turn at a free slot. -/
theorem upsertBody_of_vacant (hv : s.table.vacant s.idx = true) :
    (upsertLoop key).body s = Sum.inr
      ({ s.table.place s.idx s.entryToInsert (s.dist + 1) with size := s.table.size + 1 },
        true) := by
  simp only [upsertLoop, upsertBody, upsertProbe, hv, if_true]
  rfl

/-- A turn at an entry of the key of the call. -/
theorem upsertBody_of_key (hv : s.table.vacant s.idx ≠ true)
    (hk : (s.table.entries s.idx).key = key) :
    (upsertLoop key).body s = Sum.inr
      (if sequenceNewer s.entryToInsert.sequence (s.table.entries s.idx).sequence then
        s.table.setEntry s.idx s.entryToInsert else s.table, true) := by
  simp only [upsertLoop, upsertBody, upsertProbe, if_neg hv, if_pos hk]
  split_ifs <;> rfl

/-- A turn at an entry that has probed less: the swap. -/
theorem upsertBody_of_swap (hv : s.table.vacant s.idx ≠ true)
    (hk : (s.table.entries s.idx).key ≠ key) (hp : s.table.psl s.idx < s.dist + 1) :
    (upsertLoop key).body s =
      if s.table.psl s.idx + 1 + 1 > 128 then
        Sum.inr (s.table.place s.idx s.entryToInsert s.dist, false)
      else
        Sum.inl ⟨s.table.place s.idx s.entryToInsert s.dist, next s.idx,
          s.table.psl s.idx + 1 + 1, s.table.entries s.idx⟩ := by
  simp only [upsertLoop, upsertBody, upsertProbe, if_neg hv, if_neg hk, if_pos hp]
  rfl

/-- A turn at an entry that has probed at least as much. -/
theorem upsertBody_of_walk (hv : s.table.vacant s.idx ≠ true)
    (hk : (s.table.entries s.idx).key ≠ key) (hp : ¬ s.table.psl s.idx < s.dist + 1) :
    (upsertLoop key).body s =
      if s.dist + 1 > 128 then Sum.inr (s.table, false)
      else Sum.inl { s with idx := next s.idx, dist := s.dist + 1 } := by
  simp only [upsertLoop, upsertBody, upsertProbe, if_neg hv, if_neg hk, if_neg hp]

end Turns

/-- The first entry of a table comes into its home slot. -/
theorem upsert_fresh (key : UInt64) (e : MemIndexEntry) : ((fresh n).upsert key e).1 =
    { ((fresh n).setEntry (home n key) (tagged key e)).setPsl (home n key) 1 with size := 1 } := by
  have hvacant : (fresh n).vacant (home n key) = true := rfl
  rw [upsert, Loop.run_of_done _ (upsertBody_of_vacant hvacant)]
  rfl

section DisplacesTurns

variable {m : MemIndex n} {key : UInt64} {idx : Fin (2 ^ n)} {dist : ℕ}

/-- The walk displaces as soon as it meets an entry that has probed less. -/
theorem displacesLoop_run_of_swap (hv : m.vacant idx ≠ true) (hk : (m.entries idx).key ≠ key)
    (hp : m.psl idx < dist + 1) : (m.displacesLoop key).run (idx, dist) = true := by
  refine Loop.run_of_done _ ?_
  simp only [displacesLoop, if_neg hv, if_neg hk, if_pos hp]

/-- Past an entry that has probed as much, the rest of the walk decides. -/
theorem displacesLoop_run_of_walk (hv : m.vacant idx ≠ true) (hk : (m.entries idx).key ≠ key)
    (hp : ¬ m.psl idx < dist + 1) (hd : dist + 1 ≤ 128) :
    (m.displacesLoop key).run (idx, dist) =
      (m.displacesLoop key).run (next idx, dist + 1) := by
  refine Loop.run_of_again _ ?_
  simp only [displacesLoop, if_neg hv, if_neg hk, if_neg hp, if_neg (not_lt.mpr hd)]

end DisplacesTurns

/-! ### A stored key -/

/-- **The call for a stored key** that displaces nothing updates its slot when the new
sequence is newer, and changes nothing otherwise. -/
theorem Wf.upsert_stored {m : MemIndex n} (hm : m.Wf) {key : UInt64} {e : MemIndexEntry}
    {i : Fin (2 ^ n)} (ho : m.Occupied i) (hk : (m.entries i).key = key)
    (hd : ¬ m.Displaces key) :
    m.upsert key e =
      (if sequenceNewer e.sequence (m.entries i).sequence then
        m.setEntry i (tagged key e) else m, true) := by
  obtain ⟨d, hd128, hdi, hpi, hpath⟩ := hm.path i ho
  rw [hk] at hpi hpath
  -- the walk follows the probe path of the key, which displaces nothing, up to slot i
  refine (upsertLoop key).run_induction
    (fun s => s.table = m ∧ s.entryToInsert = tagged key e ∧
      s.idx = probe n key s.dist ∧ s.dist ≤ d ∧
      (m.displacesLoop key).run (s.idx, s.dist) ≠ true)
    (fun r => r = (if sequenceNewer e.sequence (m.entries i).sequence then
        m.setEntry i (tagged key e) else m, true)) ?_
    (s := ⟨m, home n key, 0, tagged key e⟩) ⟨rfl, rfl, rfl, Nat.zero_le d, hd⟩
  rintro ⟨t, idx, dist, x⟩ ⟨ht, hx, hidx, hle, hrun⟩
  dsimp only at ht hx hidx hle hrun
  subst ht hx hidx
  have hocc : t.Occupied (probe n key dist) := by
    rcases Nat.lt_or_eq_of_le hle with hlt | rfl
    · exact (hpath dist hlt).1
    · rwa [hpi]
  have hv : t.vacant (probe n key dist) ≠ true := fun h => (hm.vacant_iff _).mp h hocc
  by_cases hkey : (t.entries (probe n key dist)).key = key
  · obtain rfl : probe n key dist = i := hm.inj _ _ hocc ho (hkey.trans hk.symm)
    rw [upsertBody_of_key hv hkey]
    dsimp only [Sum.elim_inr]
    rw [tagged_sequence]
  · have hp : ¬ t.psl (probe n key dist) < dist + 1 := fun hp =>
      hrun (displacesLoop_run_of_swap hv hkey hp)
    have hne : dist ≠ d := by
      rintro rfl
      exact hkey (by rw [hpi, hk])
    have hd : ¬ dist + 1 > 128 := by omega
    rw [upsertBody_of_walk hv hkey hp, if_neg hd]
    refine ⟨rfl, rfl, (probe_succ key dist).symm, Nat.lt_of_le_of_ne hle hne, ?_⟩
    rwa [← displacesLoop_run_of_walk hv hkey hp (not_lt.mp hd)]

/-! ### An absent key -/

/-- The walk of `upsert` holds an entry that is nowhere in the table, and together they are
the old contents and the new entry. -/
structure Carrying (m : MemIndex n) (e : MemIndexEntry) (s : UpsertState n) : Prop where
  /-- The table is well formed. -/
  wf : s.table.Wf
  /-- The carried entry has the fingerprint of its key. -/
  tag_eq : s.entryToInsert.tag = HashUtil.tag s.entryToInsert.key
  /-- No slot holds the key of the carried entry. -/
  absent : s.table.Absent s.entryToInsert.key
  /-- The walk is on the probe path of the carried entry. -/
  path : ∃ d ≤ s.dist, probe n s.entryToInsert.key d = s.idx ∧
    s.table.OnPath s.entryToInsert.key d
  /-- The distance has not reached the limit. -/
  dist_le : s.dist ≤ 128
  /-- Nothing has been lost and nothing duplicated. -/
  holds : ∀ x, s.table.Holds x ∨ x = s.entryToInsert ↔ m.Holds x ∨ x = e

namespace Carrying

variable {m : MemIndex n} {e : MemIndexEntry} {s : UpsertState n}

/-- Writing the carried entry into the slot of the walk keeps the table well formed. -/
theorem place_wf (h : Carrying m e s) {p : ℕ} (hp : s.table.psl s.idx ≤ p) (hpos : 0 < p)
    (hd : s.dist ≤ p) : (s.table.place s.idx s.entryToInsert p).Wf := by
  obtain ⟨d, hle, hprobe, hpath⟩ := h.path
  exact h.wf.place hp hpos h.tag_eq (fun j _ hj => h.absent j hj) (hle.trans h.dist_le)
    (hle.trans hd) hprobe hpath

/-- The walk ends in a free slot. -/
theorem insert (h : Carrying m e s) (hfree : ¬ s.table.Occupied s.idx) :
    (s.table.place s.idx s.entryToInsert (s.dist + 1)).Wf ∧
      ∀ x, (s.table.place s.idx s.entryToInsert (s.dist + 1)).Holds x ↔ m.Holds x ∨ x = e := by
  have hz : s.table.psl s.idx = 0 := Nat.eq_zero_of_not_pos hfree
  refine ⟨h.place_wf (by omega) (Nat.succ_pos _) (Nat.le_succ _), fun x => ?_⟩
  rw [holds_place_iff (Nat.succ_pos _), ← h.holds x, or_comm]
  refine or_congr_left ⟨?_, ?_⟩
  · rintro ⟨j, -, ho, hj⟩
    exact ⟨j, ho, hj⟩
  · rintro ⟨j, ho, hj⟩
    exact ⟨j, fun h' => hfree (h' ▸ ho), ho, hj⟩

/-- A swap puts the carried entry down and takes up the resident. -/
theorem swap (h : Carrying m e s) (ho : s.table.Occupied s.idx)
    (hp : s.table.psl s.idx < s.dist + 1) :
    (s.table.place s.idx s.entryToInsert s.dist).Wf ∧
      (s.table.psl s.idx + 1 + 1 ≤ 128 →
        Carrying m e ⟨s.table.place s.idx s.entryToInsert s.dist, next s.idx,
          s.table.psl s.idx + 1 + 1, s.table.entries s.idx⟩) := by
  have hpos : 0 < s.dist := lt_of_lt_of_le ho (Nat.lt_succ_iff.mp hp)
  have hle : s.table.psl s.idx ≤ s.dist := Nat.lt_succ_iff.mp hp
  have hwf := h.place_wf hle hpos le_rfl
  refine ⟨hwf, fun hd => ⟨hwf, h.wf.tag_eq _ ho, ?_, ?_, hd, fun x => ?_⟩⟩
  · intro j hj hkey
    dsimp only at hj hkey
    by_cases hji : j = s.idx
    · subst hji
      rw [place_entries_self] at hkey
      exact h.absent _ ho hkey.symm
    · rw [place_entries_ne hji] at hkey
      exact hji (h.wf.inj _ _ ((occupied_place_of_ne hji).mp hj) ho hkey)
  · obtain ⟨d, -, hdp, hprobe, hpath⟩ := h.wf.path _ ho
    refine ⟨d + 1, by dsimp only; omega, by rw [probe_succ, hprobe], ?_⟩
    refine (hpath.place hle).succ ?_ ?_
    · rw [hprobe, Occupied, place_psl_self]
      exact hpos
    · rw [hprobe, place_psl_self]
      exact hdp.trans hle
  · rw [holds_place_iff hpos, ← h.holds x]
    constructor
    · rintro ((rfl | ⟨j, -, hj, rfl⟩) | rfl)
      · exact Or.inr rfl
      · exact Or.inl ⟨j, hj, rfl⟩
      · exact Or.inl ⟨_, ho, rfl⟩
    · rintro (⟨j, hj, rfl⟩ | rfl)
      · by_cases hji : j = s.idx
        · exact Or.inr (by rw [hji])
        · exact Or.inl (Or.inr ⟨j, hji, hj, rfl⟩)
      · exact Or.inl (Or.inl rfl)

/-- A further step over an entry that has probed as much. -/
theorem walk (h : Carrying m e s) (ho : s.table.Occupied s.idx)
    (hp : ¬ s.table.psl s.idx < s.dist + 1) (hd : s.dist + 1 ≤ 128) :
    Carrying m e { s with idx := next s.idx, dist := s.dist + 1 } := by
  refine ⟨h.wf, h.tag_eq, h.absent, ?_, hd, h.holds⟩
  obtain ⟨d, hle, hprobe, hpath⟩ := h.path
  refine ⟨d + 1, by dsimp only; omega, by rw [probe_succ, hprobe], hpath.succ ?_ ?_⟩
  · rwa [hprobe]
  · rw [hprobe]
    omega

end Carrying

/-- The walk has put the new entry down in slot `j₀`, has met only occupied slots since, and
has a free slot ahead. -/
def Settled (key : UInt64) (s : UpsertState n) : Prop :=
  ∃ j₀ t, 0 < t ∧ s.idx = next^[t] j₀ ∧ (∀ j < t, s.table.Occupied (next^[j] j₀)) ∧
    s.table.Occupied j₀ ∧ (s.table.entries j₀).key = key ∧ ∃ f, ¬ s.table.Occupied f

/-- A settled walk never comes back to the new entry. -/
theorem Settled.key_ne {key : UInt64} {s : UpsertState n} (h : Settled key s)
    (hwf : s.table.Wf) (ho : s.table.Occupied s.idx) : (s.table.entries s.idx).key ≠ key := by
  obtain ⟨j₀, t, ht, hidx, hocc, ho₀, hk₀, f, hf⟩ := h
  intro hk
  have hret : next^[t] j₀ = j₀ := by
    rw [← hidx]
    exact hwf.inj _ _ ho ho₀ (hk.trans hk₀.symm)
  obtain ⟨j, hj, rfl⟩ := exists_iterate_lt_of_return ht hret f
  exact hf (hocc j hj)

/-- The first swap leaves a settled walk, when the table has a free slot. -/
theorem settled_of_first_swap {key : UInt64} {s : UpsertState n}
    (ho : s.table.Occupied s.idx) (hp : s.table.psl s.idx < s.dist + 1)
    (hk : s.entryToInsert.key = key) (hfree : ∃ f, ¬ s.table.Occupied f) :
    Settled key ⟨s.table.place s.idx s.entryToInsert s.dist, next s.idx,
      s.table.psl s.idx + 1 + 1, s.table.entries s.idx⟩ := by
  have hle : s.table.psl s.idx ≤ s.dist := Nat.lt_succ_iff.mp hp
  have ho' : (s.table.place s.idx s.entryToInsert s.dist).Occupied s.idx :=
    lt_of_lt_of_le ho (psl_le_place hle _)
  obtain ⟨f, hf⟩ := hfree
  have hfi : f ≠ s.idx := fun h => hf (h ▸ ho)
  refine ⟨s.idx, 1, Nat.one_pos, rfl, ?_, ho', ?_, f, ?_⟩
  · intro j hj
    obtain rfl : j = 0 := Nat.lt_one_iff.mp hj
    exact ho'
  · rwa [place_entries_self]
  · rwa [occupied_place_of_ne hfi]

/-- Every further swap leaves a settled walk settled. -/
theorem Settled.swap {key : UInt64} {s : UpsertState n} (h : Settled key s)
    (ho : s.table.Occupied s.idx) (hk : (s.table.entries s.idx).key ≠ key)
    (hp : s.table.psl s.idx < s.dist + 1) :
    Settled key ⟨s.table.place s.idx s.entryToInsert s.dist, next s.idx,
      s.table.psl s.idx + 1 + 1, s.table.entries s.idx⟩ := by
  have hle : s.table.psl s.idx ≤ s.dist := Nat.lt_succ_iff.mp hp
  have hmono : ∀ j, s.table.Occupied j →
      (s.table.place s.idx s.entryToInsert s.dist).Occupied j :=
    fun j hj => lt_of_lt_of_le hj (psl_le_place hle j)
  obtain ⟨j₀, t, ht, hidx, hocc, ho₀, hk₀, f, hf⟩ := h
  have hj₀ : j₀ ≠ s.idx := fun h => hk (h ▸ hk₀)
  have hfi : f ≠ s.idx := fun h => hf (h ▸ ho)
  refine ⟨j₀, t + 1, Nat.succ_pos t, ?_, ?_, hmono _ ho₀, ?_, f, ?_⟩
  · rw [Function.iterate_succ_apply', ← hidx]
  · intro j hj
    rcases Nat.lt_succ_iff_lt_or_eq.mp hj with hlt | rfl
    · exact hmono _ (hocc j hlt)
    · rw [← hidx]
      exact hmono _ ho
  · rwa [place_entries_ne hj₀]
  · rwa [occupied_place_of_ne hfi]

/-- A step over an occupied slot leaves a settled walk settled. -/
theorem Settled.walk {key : UInt64} {s : UpsertState n} (h : Settled key s)
    (ho : s.table.Occupied s.idx) :
    Settled key { s with idx := next s.idx, dist := s.dist + 1 } := by
  obtain ⟨j₀, t, ht, hidx, hocc, hrest⟩ := h
  refine ⟨j₀, t + 1, Nat.succ_pos t, ?_, ?_, hrest⟩
  · rw [Function.iterate_succ_apply', ← hidx]
  · intro j hj
    rcases Nat.lt_succ_iff_lt_or_eq.mp hj with hlt | rfl
    · exact hocc j hlt
    · rwa [← hidx]

/-- The walk starts with the new entry and the old table. -/
theorem carrying_start {m : MemIndex n} (hm : m.Wf) {key : UInt64} {e : MemIndexEntry}
    (hk : e.key = key) (habs : m.Absent key) :
    Carrying m (tagged key e) ⟨m, home n key, 0, tagged key e⟩ := by
  have hkey : (tagged key e).key = key := (tagged_key key e).trans hk
  refine ⟨hm, ?_, ?_, ⟨0, le_rfl, ?_, ?_⟩, Nat.zero_le _, fun x => Iff.rfl⟩
  · rw [tagged_tag, hkey]
  · rwa [hkey]
  · rw [hkey, probe_zero]
  · exact fun j hj => absurd hj (Nat.not_lt_zero j)

/-- The walk of a call for an absent key: either nothing has been swapped yet, or the new entry
has been put down. -/
structure AbsentWalk (m : MemIndex n) (key : UInt64) (e : MemIndexEntry) (s : UpsertState n) :
    Prop where
  carrying : Carrying m (tagged key e) s
  phase : s.entryToInsert.key = key ∧ ((s.table.displacesLoop key).run (s.idx, s.dist) = true →
    ∃ f, ¬ s.table.Occupied f) ∨ Settled key s

/-- The walk meets no entry of the key of the call. -/
theorem AbsentWalk.key_ne {m : MemIndex n} {key : UInt64} {e : MemIndexEntry}
    {s : UpsertState n} (h : AbsentWalk m key e s) (ho : s.table.Occupied s.idx) :
    (s.table.entries s.idx).key ≠ key := by
  rcases h.phase with ⟨hk, -⟩ | hs
  · exact hk ▸ h.carrying.absent _ ho
  · exact hs.key_ne h.carrying.wf ho

/-- What is occupied after writing a slot. -/
theorem occupied_place_iff {m : MemIndex n} {i j : Fin (2 ^ n)} {e : MemIndexEntry} {p : ℕ}
    (hp : 0 < p) : (m.place i e p).Occupied j ↔ j = i ∨ m.Occupied j := by
  by_cases h : j = i
  · subst h
    exact iff_of_true (by rwa [Occupied, place_psl_self]) (Or.inl rfl)
  · rw [occupied_place_of_ne h, or_iff_right h]

/-- **A turn for an absent key** goes on, puts the entry in hand into a free slot, or gives up
and loses it. -/
theorem AbsentWalk.turn {m : MemIndex n} {key : UInt64} {e : MemIndexEntry}
    {s : UpsertState n} (h : AbsentWalk m key e s) :
    (∃ s', (upsertLoop key).body s = Sum.inl s' ∧ AbsentWalk m key e s' ∧
      s'.table.size = s.table.size ∧ ∀ i, s'.table.Occupied i ↔ s.table.Occupied i) ∨
    (∃ t, (upsertLoop key).body s = Sum.inr (t, true) ∧ t.Wf ∧
      (∀ x, t.Holds x ↔ m.Holds x ∨ x = tagged key e) ∧ t.size = s.table.size + 1 ∧
      ∃ f, ¬ s.table.Occupied f ∧ ∀ i, t.Occupied i ↔ i = f ∨ s.table.Occupied i) ∨
    ∃ t, (upsertLoop key).body s = Sum.inr (t, false) ∧ t.Wf ∧ (∃ x, t.Holds x) ∧
      (∀ x, t.Holds x → m.Holds x ∨ x = tagged key e) ∧
      ∀ i, t.Occupied i ↔ s.table.Occupied i := by
  have hc := h.carrying
  by_cases hv : s.table.vacant s.idx = true
  · have hfree := (hc.wf.vacant_iff _).mp hv
    obtain ⟨hwf, hholds⟩ := hc.insert hfree
    exact Or.inr (Or.inl ⟨_, upsertBody_of_vacant hv, hwf.withSize, hholds, rfl, s.idx, hfree,
      fun i => occupied_place_iff (Nat.succ_pos _)⟩)
  have ho : s.table.Occupied s.idx := by
    by_contra h
    exact hv ((hc.wf.vacant_iff _).mpr h)
  have hkey := h.key_ne ho
  by_cases hp : s.table.psl s.idx < s.dist + 1
  · have hbody := upsertBody_of_swap hv hkey hp
    obtain ⟨hwf, hnext⟩ := hc.swap ho hp
    have hpos : 0 < s.dist := lt_of_lt_of_le ho (Nat.lt_succ_iff.mp hp)
    have hocc : ∀ i, (s.table.place s.idx s.entryToInsert s.dist).Occupied i ↔
        s.table.Occupied i := fun i =>
      (occupied_place_iff hpos).trans (or_iff_right_of_imp fun h => h ▸ ho)
    split_ifs at hbody with hd
    · -- the resident is lost
      refine Or.inr (Or.inr ⟨_, hbody, hwf, ⟨_, (holds_place_iff hpos).mpr (Or.inl rfl)⟩,
        fun x hx => (hc.holds x).mp ?_, hocc⟩)
      rcases (holds_place_iff hpos).mp hx with rfl | ⟨j, -, hj, rfl⟩
      · exact Or.inr rfl
      · exact Or.inl ⟨j, hj, rfl⟩
    · refine Or.inl ⟨_, hbody, ⟨hnext (not_lt.mp hd), Or.inr ?_⟩, rfl, hocc⟩
      rcases h.phase with ⟨hk', hf⟩ | hs
      · exact settled_of_first_swap ho hp hk' (hf (displacesLoop_run_of_swap hv hkey hp))
      · exact hs.swap ho hkey hp
  · have hbody := upsertBody_of_walk hv hkey hp
    split_ifs at hbody with hd
    · exact Or.inr (Or.inr ⟨_, hbody, hc.wf, ⟨_, s.idx, ho, rfl⟩,
        fun x hx => (hc.holds x).mp (Or.inl hx), fun _ => Iff.rfl⟩)
    · refine Or.inl ⟨_, hbody, ⟨hc.walk ho hp (not_lt.mp hd), ?_⟩, rfl, fun _ => Iff.rfl⟩
      rcases h.phase with ⟨hk', hf⟩ | hs
      · refine Or.inl ⟨hk', fun h => hf ?_⟩
        rwa [displacesLoop_run_of_walk hv hkey hp (not_lt.mp hd)]
      · exact Or.inr (hs.walk ho)

/-- **The call for an absent key adds exactly the new entry.** It keeps the table well formed
in any case; when it succeeds the table holds the old entries and the new one, otherwise
all of these but one. -/
theorem Wf.upsert_absent {m : MemIndex n} (hm : m.Wf) {key : UInt64} {e : MemIndexEntry}
    (hk : e.key = key) (habs : m.Absent key) (hfree : m.Displaces key → ∃ i, ¬ m.Occupied i) :
    (m.upsert key e).1.Wf ∧ ((m.upsert key e).2 = true →
      ∀ x, (m.upsert key e).1.Holds x ↔ m.Holds x ∨ x = tagged key e) ∧
      (∃ x, (m.upsert key e).1.Holds x) ∧
      ∀ x, (m.upsert key e).1.Holds x → m.Holds x ∨ x = tagged key e := by
  refine (upsertLoop key).run_induction (AbsentWalk m key e)
    (fun r => r.1.Wf ∧ (r.2 = true → ∀ x, r.1.Holds x ↔ m.Holds x ∨ x = tagged key e) ∧
      (∃ x, r.1.Holds x) ∧ ∀ x, r.1.Holds x → m.Holds x ∨ x = tagged key e)
    ?_ (s := ⟨m, home n key, 0, tagged key e⟩)
    ⟨carrying_start hm hk habs, Or.inl ⟨(tagged_key key e).trans hk, hfree⟩⟩
  intro s h
  rcases h.turn with ⟨s', hb, hs', -⟩ | ⟨t, hb, hwf, hholds, -⟩ | ⟨t, hb, hwf, hsome, hsub, -⟩
  · rw [hb]
    exact hs'
  · rw [hb]
    exact ⟨hwf, fun _ => hholds, ⟨_, (hholds _).mpr (Or.inr rfl)⟩, fun x => (hholds x).mp⟩
  · rw [hb]
    exact ⟨hwf, fun h => absurd h Bool.false_ne_true, hsome, hsub⟩

/-- A call for an absent key that succeeds counts one entry more. -/
theorem Wf.size_upsert_absent {m : MemIndex n} (hm : m.Wf) {key : UInt64} {e : MemIndexEntry}
    (hk : e.key = key) (habs : m.Absent key) (hfree : m.Displaces key → ∃ i, ¬ m.Occupied i)
    (hok : (m.upsert key e).2 = true) : (m.upsert key e).1.size = m.size + 1 := by
  revert hok
  refine (upsertLoop key).run_induction
    (fun s => AbsentWalk m key e s ∧ s.table.size = m.size)
    (fun r => r.2 = true → r.1.size = m.size + 1)
    ?_ (s := ⟨m, home n key, 0, tagged key e⟩)
    ⟨⟨carrying_start hm hk habs, Or.inl ⟨(tagged_key key e).trans hk, hfree⟩⟩, rfl⟩
  rintro s ⟨h, hsize⟩
  rcases h.turn with ⟨s', hb, hs', hsame, -⟩ | ⟨t, hb, -, -, hone, -⟩ | ⟨t, hb, -⟩
  · rw [hb]
    exact ⟨hs', hsame.trans hsize⟩
  · rw [hb]
    exact fun _ => by rw [← hsize, hone]
  · rw [hb]
    exact fun h => absurd h Bool.false_ne_true

/-- A call for an absent key takes one slot more if it succeeds, and none if it does not. -/
theorem Wf.occupied_upsert_absent {m : MemIndex n} (hm : m.Wf) {key : UInt64}
    {e : MemIndexEntry} (hk : e.key = key) (habs : m.Absent key)
    (hfree : m.Displaces key → ∃ i, ¬ m.Occupied i) :
    ((m.upsert key e).2 = true → ∃ f, ¬ m.Occupied f ∧
      ∀ i, (m.upsert key e).1.Occupied i ↔ i = f ∨ m.Occupied i) ∧
    ((m.upsert key e).2 = false → ∀ i, (m.upsert key e).1.Occupied i ↔ m.Occupied i) := by
  refine (upsertLoop key).run_induction
    (fun s => AbsentWalk m key e s ∧ ∀ i, s.table.Occupied i ↔ m.Occupied i)
    (fun r => (r.2 = true → ∃ f, ¬ m.Occupied f ∧ ∀ i, r.1.Occupied i ↔ i = f ∨ m.Occupied i) ∧
      (r.2 = false → ∀ i, r.1.Occupied i ↔ m.Occupied i))
    ?_ (s := ⟨m, home n key, 0, tagged key e⟩)
    ⟨⟨carrying_start hm hk habs, Or.inl ⟨(tagged_key key e).trans hk, hfree⟩⟩, fun _ => Iff.rfl⟩
  rintro s ⟨h, hocc⟩
  rcases h.turn with ⟨s', hb, hs', -, hsame⟩ | ⟨t, hb, -, -, -, f, hf, hnew⟩ |
    ⟨t, hb, -, -, -, hsame⟩
  · rw [hb]
    exact ⟨hs', fun i => (hsame i).trans (hocc i)⟩
  · rw [hb]
    refine ⟨fun _ => ⟨f, fun h => hf ((hocc f).mpr h), fun i => ?_⟩,
      fun h => absurd h.symm Bool.false_ne_true⟩
    rw [hnew, hocc]
  · rw [hb]
    exact ⟨fun h => absurd h Bool.false_ne_true, fun _ i => (hsame i).trans (hocc i)⟩

/-- An orderly call keeps a table well formed, whether it succeeds or not. -/
theorem Wf.upsert {m : MemIndex n} (hm : m.Wf) {key : UInt64} {e : MemIndexEntry}
    (hk : e.key = key) (hord : m.Orderly key) : (m.upsert key e).1.Wf := by
  by_cases habs : m.Absent key
  · exact (hm.upsert_absent hk habs fun h => (hord h).2).1
  · obtain ⟨i, ho, hki⟩ : ∃ i, m.Occupied i ∧ (m.entries i).key = key := by
      simpa [Absent] using habs
    rw [hm.upsert_stored ho hki fun h => habs (hord h).1]
    split_ifs
    · exact hm.update ho (by rw [tagged_key, hk, hki]) (by rw [tagged_tag, tagged_key, hk])
    · exact hm

end MemIndex

end SpdkKv
