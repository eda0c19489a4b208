import SpdkKv.IndexMap

/-!
# Failed Insertions

`upsert` of `mem_index.h` gives up when its distance passes 128. If it has swapped nothing
until then, the table is as before. If it has, the new entry has been put down already, so
that a call that reports failure has inserted its key, and the entry in hand is lost.

## Main results

* `displaces_iff`: where the first swap of a call takes place.
* `upsert_eq_self`: a failed call without a swap changes nothing.
* `upsert_atomic_iff`: **a failed call leaves all lookups alone exactly when** it swaps
  nothing.
* `upsert_failure_inserts`: a failed call after which its key is found.
-/

namespace SpdkKv

namespace MemIndex

variable {n : ℕ}

/-! ### The walk up to the first swap -/

/-- The first `d` slots that probing for `key` visits are passed by `upsert`: they are taken,
by other keys, and their entries have probed enough. -/
def Passes (m : MemIndex n) (key : UInt64) (d : ℕ) : Prop :=
  ∀ j < d, m.vacant (probe n key j) ≠ true ∧ (m.entries (probe n key j)).key ≠ key ∧
    j + 1 ≤ m.psl (probe n key j)

theorem Passes.succ {m : MemIndex n} {key : UInt64} {d : ℕ} (h : m.Passes key d)
    (hv : m.vacant (probe n key d) ≠ true) (hk : (m.entries (probe n key d)).key ≠ key)
    (hp : d + 1 ≤ m.psl (probe n key d)) : m.Passes key (d + 1) := by
  intro j hj
  rcases Nat.lt_succ_iff_lt_or_eq.mp hj with hlt | rfl
  · exact h j hlt
  · exact ⟨hv, hk, hp⟩

/-- `upsert` walks past the slots that it passes. -/
theorem Passes.run_eq {m : MemIndex n} {key : UInt64} {d : ℕ} (h : m.Passes key d)
    (hd : d ≤ 128) (e : MemIndexEntry) :
    (upsertLoop key).run ⟨m, home n key, 0, e⟩ =
      (upsertLoop key).run ⟨m, probe n key d, d, e⟩ := by
  induction d with
  | zero => rfl
  | succ d ih =>
      obtain ⟨hv, hk, hp⟩ := h d (Nat.lt_succ_self d)
      rw [ih (fun j hj => h j (Nat.lt_succ_of_lt hj)) (by omega)]
      refine Loop.run_of_again _ ?_
      rw [upsertBody_of_walk hv hk (by dsimp only; omega), if_neg (by dsimp only; omega),
        probe_succ]

/-- The call swaps at the slot that it reaches after `d` turns. -/
structure SwapsAt (m : MemIndex n) (key : UInt64) (d : ℕ) : Prop where
  le : d ≤ 128
  passes : m.Passes key d
  taken : m.vacant (probe n key d) ≠ true
  key_ne : (m.entries (probe n key d)).key ≠ key
  probed_less : m.psl (probe n key d) < d + 1

/-- Where the first swap of a call takes place. -/
theorem displaces_iff {m : MemIndex n} {key : UInt64} :
    m.Displaces key ↔ ∃ d, m.SwapsAt key d := by
  constructor
  · refine (m.displacesLoop key).run_induction
      (fun s => s.1 = probe n key s.2 ∧ s.2 ≤ 128 ∧ m.Passes key s.2)
      (fun r => r = true → ∃ d, m.SwapsAt key d) ?_ (s := (home n key, 0))
      ⟨rfl, Nat.zero_le _, fun j hj => absurd hj (Nat.not_lt_zero j)⟩
    rintro ⟨idx, dist⟩ ⟨hidx, hle, hpass⟩
    dsimp only at hidx hle hpass
    subst hidx
    simp only [displacesLoop]
    split_ifs with hv hk hp hd
    · exact fun h => absurd h Bool.false_ne_true
    · exact fun h => absurd h Bool.false_ne_true
    · exact fun _ => ⟨dist, hle, hpass, hv, hk, hp⟩
    · exact fun h => absurd h Bool.false_ne_true
    · exact ⟨(probe_succ key dist).symm, not_lt.mp hd, hpass.succ hv hk (not_lt.mp hp)⟩
  · rintro ⟨d, hd⟩
    have hwalk : ∀ j ≤ d, (m.displacesLoop key).run (home n key, 0) =
        (m.displacesLoop key).run (probe n key j, j) := by
      intro j hj
      induction j with
      | zero => rfl
      | succ j ih =>
          obtain ⟨hv, hk, hp⟩ := hd.passes j (by omega)
          have hle := hd.le
          rw [ih (by omega), displacesLoop_run_of_walk hv hk (by omega) (by omega), probe_succ]
    rw [Displaces, hwalk d le_rfl]
    exact displacesLoop_run_of_swap hd.taken hd.key_ne hd.probed_less

/-- **A failed call without a swap changes nothing.** -/
theorem upsert_eq_self {m : MemIndex n} {key : UInt64} {e : MemIndexEntry}
    (hd : ¬ m.Displaces key) (hf : (m.upsert key e).2 = false) : (m.upsert key e).1 = m := by
  revert hf
  refine (upsertLoop key).run_induction
    (fun s => s.table = m ∧ s.idx = probe n key s.dist ∧ s.dist ≤ 128 ∧ m.Passes key s.dist)
    (fun r => r.2 = false → r.1 = m) ?_ (s := ⟨m, home n key, 0, tagged key e⟩)
    ⟨rfl, rfl, Nat.zero_le _, fun j hj => absurd hj (Nat.not_lt_zero j)⟩
  rintro ⟨t, idx, dist, x⟩ ⟨ht, hidx, hle, hpass⟩
  dsimp only at ht hidx hle hpass
  subst ht hidx
  by_cases hv : t.vacant (probe n key dist) = true
  · rw [upsertBody_of_vacant hv]
    exact fun h => absurd h.symm Bool.false_ne_true
  by_cases hk : (t.entries (probe n key dist)).key = key
  · rw [upsertBody_of_key hv hk]
    exact fun h => absurd h.symm Bool.false_ne_true
  have hp : ¬ t.psl (probe n key dist) < dist + 1 := fun hp =>
    hd (displaces_iff.mpr ⟨dist, hle, hpass, hv, hk, hp⟩)
  rw [upsertBody_of_walk hv hk hp]
  split_ifs with h128
  · exact fun _ => rfl
  · exact ⟨rfl, (probe_succ key dist).symm, not_lt.mp h128, hpass.succ hv hk (not_lt.mp hp)⟩

/-! ### After a swap -/

/-- A found slot carries the key. -/
theorem key_of_find {m : MemIndex n} {key : UInt64} {i : Fin (2 ^ n)}
    (h : m.find key = some i) : (m.entries i).key = key :=
  (matches_of_find h).2.1

/-- The new entry lies at `i`, where a lookup of its key ends, and the entry in hand is
another one. -/
structure PutDown (e : MemIndexEntry) (i : Fin (2 ^ n)) (d : ℕ) (s : UpsertState n) :
    Prop where
  le : d ≤ 128
  probe_eq : probe n e.key d = i
  entry : s.table.entries i = tagged e.key e
  path : ∀ j ≤ d, j ≤ s.table.psl (probe n e.key j)
  first : ∀ j ≤ d, (s.table.entries (probe n e.key j)).key = e.key → probe n e.key j = i
  carried : s.entryToInsert.key ≠ e.key

/-- A lookup of the key ends there. -/
theorem PutDown.find_eq {e : MemIndexEntry} {i : Fin (2 ^ n)} {d : ℕ} {s : UpsertState n}
    (h : PutDown e i d s) (hlive : e.deleted = false) : s.table.find e.key = some i := by
  have hmatch : s.table.Matches e.key (probe n e.key d) := by
    rw [Matches, h.probe_eq, h.entry, tagged_tag, tagged_key, tagged_deleted, hlive]
    exact ⟨rfl, rfl, Bool.false_ne_true⟩
  rw [find_eq_of_match h.le hmatch h.path, h.probe_eq]
  intro j hj hmatchj
  rw [h.first j hj hmatchj.2.1, h.probe_eq]

/-- Putting down the entry in hand elsewhere leaves the new entry where it is. -/
theorem PutDown.place {e : MemIndexEntry} {i : Fin (2 ^ n)} {d : ℕ} {s : UpsertState n}
    (h : PutDown e i d s) (hk : (s.table.entries s.idx).key ≠ e.key)
    (hp : s.table.psl s.idx < s.dist + 1) (idx : Fin (2 ^ n)) (dist : ℕ) :
    PutDown e i d ⟨s.table.place s.idx s.entryToInsert s.dist, idx, dist,
      s.table.entries s.idx⟩ := by
  have hi : i ≠ s.idx := by
    rintro rfl
    rw [h.entry, tagged_key] at hk
    exact hk rfl
  refine ⟨h.le, h.probe_eq, ?_, fun j hj => ?_, fun j hj hkey => ?_, hk⟩
  · rw [place_entries_ne hi, h.entry]
  · exact (h.path j hj).trans (psl_le_place (Nat.lt_succ_iff.mp hp) _)
  · by_cases hji : probe n e.key j = s.idx
    · rw [hji, place_entries_self] at hkey
      exact absurd hkey h.carried
    · rw [place_entries_ne hji] at hkey
      exact h.first j hj hkey

/-- The first swap of a call puts the new entry down. -/
theorem SwapsAt.putDown {m : MemIndex n} {e : MemIndexEntry} {d : ℕ} (h : m.SwapsAt e.key d)
    (idx : Fin (2 ^ n)) (dist : ℕ) :
    PutDown e (probe n e.key d) d ⟨m.place (probe n e.key d) (tagged e.key e) d, idx, dist,
      m.entries (probe n e.key d)⟩ := by
  refine ⟨h.le, rfl, place_entries_self, fun j hj => ?_, fun j hj hkey => ?_, h.key_ne⟩
  · rcases Nat.lt_or_eq_of_le hj with hlt | rfl
    · have hmono := psl_le_place (e := tagged e.key e) (Nat.lt_succ_iff.mp h.probed_less)
        (probe n e.key j)
      have := (h.passes j hlt).2.2
      dsimp only
      omega
    · dsimp only
      rw [place_psl_self]
  · by_contra hne
    dsimp only at hkey
    rw [place_entries_ne hne] at hkey
    rcases Nat.lt_or_eq_of_le hj with hlt | rfl
    · exact (h.passes j hlt).2.1 hkey
    · exact hne rfl

/-- Once it has put the new entry down, a call that fails leaves it there. -/
theorem PutDown.run {e : MemIndexEntry} {i : Fin (2 ^ n)} {d : ℕ} {s : UpsertState n}
    (h : PutDown e i d s) (hlive : e.deleted = false)
    (hf : ((upsertLoop e.key).run s).2 = false) :
    ((upsertLoop e.key).run s).1.find e.key = some i := by
  revert hf
  refine (upsertLoop e.key).run_induction (PutDown e i d)
    (fun r => r.2 = false → r.1.find e.key = some i) ?_ h
  intro s h
  by_cases hv : s.table.vacant s.idx = true
  · rw [upsertBody_of_vacant hv]
    exact fun h => absurd h.symm Bool.false_ne_true
  by_cases hk : (s.table.entries s.idx).key = e.key
  · rw [upsertBody_of_key hv hk]
    exact fun h => absurd h.symm Bool.false_ne_true
  by_cases hp : s.table.psl s.idx < s.dist + 1
  · rw [upsertBody_of_swap hv hk hp]
    split_ifs with hd
    · exact fun _ => (h.place hk hp s.idx s.dist).find_eq hlive
    · exact h.place hk hp _ _
  · rw [upsertBody_of_walk hv hk hp]
    split_ifs with hd
    · exact fun _ => h.find_eq hlive
    · exact ⟨h.le, h.probe_eq, h.entry, h.path, h.first, h.carried⟩

/-- A failed call that swaps has inserted its key. -/
theorem SwapsAt.find_upsert {m : MemIndex n} {e : MemIndexEntry} {d : ℕ}
    (h : m.SwapsAt e.key d) (hlive : e.deleted = false)
    (hf : (m.upsert e.key e).2 = false) :
    (m.upsert e.key e).1.find e.key = some (probe n e.key d) := by
  rw [upsert, h.passes.run_eq h.le] at hf ⊢
  have hbody := upsertBody_of_swap (s := ⟨m, probe n e.key d, d, tagged e.key e⟩) h.taken
    h.key_ne h.probed_less
  dsimp only at hbody
  split_ifs at hbody with h128
  · rw [Loop.run_of_done _ hbody]
    exact (h.putDown (probe n e.key d) d).find_eq hlive
  · rw [Loop.run_of_again _ hbody] at hf ⊢
    exact (h.putDown _ _).run hlive hf

/-- **When a failed call leaves all lookups alone**: exactly when it swaps nothing. Then the
whole table is as before. -/
theorem upsert_atomic_iff {m : MemIndex n} {e : MemIndexEntry}
    (hf : (m.upsert e.key e).2 = false) :
    (¬ m.Displaces e.key → (m.upsert e.key e).1 = m) ∧
    (e.deleted = false →
      ((∀ key, (m.upsert e.key e).1.find key = m.find key ∧
          (m.upsert e.key e).1.findEntry key = m.findEntry key) ∧
        (m.upsert e.key e).1.size = m.size ↔ ¬ m.Displaces e.key)) := by
  refine ⟨fun hd => upsert_eq_self hd hf, fun hlive => ⟨?_, fun hd => ?_⟩⟩
  · rintro ⟨hsame, -⟩ hd
    obtain ⟨d, hd⟩ := displaces_iff.mp hd
    have hfind := hd.find_upsert hlive hf
    rw [(hsame e.key).1] at hfind
    exact hd.key_ne (key_of_find hfind)
  · rw [upsert_eq_self hd hf]
    exact ⟨fun _ => ⟨rfl, rfl⟩, rfl⟩

/-! ### A failed call that inserts -/

/-- A full table of capacity 2 with keys `a` and `b`. -/
def twoSlots (a b : UInt64) (p : ℕ) : MemIndex 1 where
  entries := fun i => if i = 0 then sampleEntry a 1 else sampleEntry b 1
  psl := fun i => if i = 0 then p else p + 1
  size := 2
  globalSequence := 0

theorem sampleEntry_key (key : UInt64) (sequence : UInt32) :
    (sampleEntry key sequence).key = key := by
  rw [sampleEntry, tagged_key]

theorem tagged_tagged (key : UInt64) (e : MemIndexEntry) :
    tagged key (tagged key e) = tagged key e := by
  rw [tagged, tagged]

theorem tagged_sampleEntry (key : UInt64) (sequence : UInt32) :
    tagged key (sampleEntry key sequence) = sampleEntry key sequence := by
  rw [sampleEntry, tagged_tagged]

section TwoSlots

variable {a b c : UInt64} {p : ℕ}

theorem twoSlots_entries_key (i : Fin (2 ^ 1)) :
    ((twoSlots a b p).entries i).key = if i = 0 then a else b := by
  rw [twoSlots]
  dsimp only
  split_ifs
  · exact sampleEntry_key a 1
  · exact sampleEntry_key b 1

theorem twoSlots_not_vacant (hp : 0 < p) (i : Fin (2 ^ 1)) :
    (twoSlots a b p).vacant i ≠ true := by
  have hpsl : (twoSlots a b p).psl i ≠ 0 := by
    rw [twoSlots]
    dsimp only
    split_ifs
    · omega
    · omega
  rw [vacant]
  simp [hpsl]

/-- The slots of a table of capacity 2 alternate along a probe path. -/
theorem probe_one_val (key : UInt64) (d : ℕ) :
    (probe 1 key d).val = ((home 1 key).val + d) % 2 := by
  rw [probe, iterate_next_val]
  rfl

/-- A call for a third key whose home fits swaps at slot 0. -/
theorem twoSlots_swapsAt (hp : 0 < p) (hp' : p + 1 ≤ 128) (ha : a ≠ c) (hb : b ≠ c)
    (hc : (home 1 c).val = (p + 1) % 2) :
    (twoSlots a b p).SwapsAt c (p + 1) ∧ probe 1 c (p + 1) = 0 := by
  have hkey : ∀ i, ((twoSlots a b p).entries i).key ≠ c := by
    intro i
    rw [twoSlots_entries_key]
    split_ifs
    · exact ha
    · exact hb
  have hslot : probe 1 c (p + 1) = 0 := by
    refine Fin.ext ?_
    rw [probe_one_val, hc, Fin.val_zero]
    omega
  refine ⟨⟨hp', fun j hj => ⟨twoSlots_not_vacant hp _, hkey _, ?_⟩, twoSlots_not_vacant hp _,
    hkey _, ?_⟩, hslot⟩
  · rw [twoSlots]
    dsimp only
    split_ifs with h0
    · -- slot 0 is visited only at distances of the other parity
      have hval := congrArg Fin.val h0
      rw [probe_one_val, hc, Fin.val_zero] at hval
      omega
    · omega
  · rw [hslot, twoSlots]
    dsimp only
    rw [if_pos rfl]
    omega

/-- The table after the two swaps of a call. -/
theorem place_twoSlots :
    (((twoSlots a b p).place 0 (sampleEntry c 1) (p + 1)).place 1 (sampleEntry a 1) (p + 2)) =
      twoSlots c a (p + 1) := by
  rw [twoSlots, twoSlots, place, place, setEntry, setPsl, setEntry, setPsl]
  dsimp only
  congr 1
  · exact funext (Fin.forall_fin_two.mpr ⟨rfl, rfl⟩)
  · exact funext (Fin.forall_fin_two.mpr ⟨rfl, rfl⟩)

/-- What the call returns: it swaps twice, and unless it gives up then, it meets the new entry
with the older one in hand. -/
theorem upsert_twoSlots (hp : 0 < p) (hp' : p ≤ 126) (ha : a ≠ c) (hb : b ≠ c)
    (hc : (home 1 c).val = (p + 1) % 2) :
    (twoSlots a b p).upsert c (sampleEntry c 1) =
      (twoSlots c a (p + 1), decide (p + 3 ≤ 128)) := by
  obtain ⟨hswap, hslot⟩ := twoSlots_swapsAt hp (by omega) ha hb hc
  have hb1 := upsertBody_of_swap (s := ⟨twoSlots a b p, probe 1 c (p + 1), p + 1,
    sampleEntry c 1⟩) hswap.taken hswap.key_ne hswap.probed_less
  rw [upsert, tagged_sampleEntry, hswap.passes.run_eq hswap.le]
  rw [hslot] at hb1 ⊢
  have hpsl0 : (twoSlots a b p).psl 0 = p := rfl
  have hent0 : (twoSlots a b p).entries 0 = sampleEntry a 1 := rfl
  have hnext0 : next (0 : Fin (2 ^ 1)) = 1 := by decide
  dsimp only at hb1
  rw [hpsl0, hent0, hnext0, if_neg (by omega)] at hb1
  rw [Loop.run_of_again _ hb1]
  -- the second swap, at slot 1
  have hne : (1 : Fin (2 ^ 1)) ≠ 0 := by decide
  have hpsl1 : ((twoSlots a b p).place 0 (sampleEntry c 1) (p + 1)).psl 1 = p + 1 := by
    rw [place_psl_ne hne]
    rfl
  have hent1 : ((twoSlots a b p).place 0 (sampleEntry c 1) (p + 1)).entries 1 =
      sampleEntry b 1 := by
    rw [place_entries_ne hne]
    rfl
  have hb2 := upsertBody_of_swap
    (s := ⟨(twoSlots a b p).place 0 (sampleEntry c 1) (p + 1), 1, p + 1 + 1, sampleEntry a 1⟩)
    (by dsimp only; rw [vacant, hpsl1]; simp)
    (by dsimp only; rwa [hent1, sampleEntry_key]) (by dsimp only; omega)
  dsimp only at hb2
  have hnext1 : next (1 : Fin (2 ^ 1)) = 0 := by decide
  rw [hpsl1, hent1, hnext1, place_twoSlots] at hb2
  by_cases hlast : p + 3 ≤ 128
  · rw [if_neg (by omega)] at hb2
    rw [Loop.run_of_again _ hb2, Loop.run_of_done _ (upsertBody_of_key
      (twoSlots_not_vacant (Nat.succ_pos p) 0) (by rw [twoSlots_entries_key, if_pos rfl]))]
    have hseq : sequenceNewer (sampleEntry b 1).sequence
        ((twoSlots c a (p + 1)).entries 0).sequence = false := by
      rw [twoSlots]
      dsimp only
      rw [if_pos rfl, sampleEntry, sampleEntry, tagged_sequence, tagged_sequence,
        sequenceNewer]
      simp
    dsimp only
    rw [hseq, if_neg Bool.false_ne_true, decide_eq_true hlast]
  · rw [if_pos (by omega)] at hb2
    rw [Loop.run_of_done _ hb2, decide_eq_false hlast]

end TwoSlots

/-- The key that the call in a table with stored lengths `p - 1` and `p` inserts. -/
def turnKey (p : ℕ) : UInt64 := UInt64.ofNat (p % 4 + 1)

theorem turnKey_mod (p : ℕ) : turnKey p = turnKey (p % 4) := by
  rw [turnKey, turnKey, Nat.mod_mod]

theorem home_turnKey (p : ℕ) : (home 1 (turnKey p)).val = p % 2 := by
  have h : ∀ r < 4, (home 1 (turnKey r)).val = r % 2 := by decide +kernel
  rw [turnKey_mod, h _ (Nat.mod_lt p (by decide))]
  omega

theorem turnKey_ne (p : ℕ) : turnKey (p + 1) ≠ turnKey (p + 2) ∧ turnKey p ≠ turnKey (p + 2) := by
  have h : ∀ r < 4, turnKey (r + 1) ≠ turnKey (r + 2) ∧ turnKey r ≠ turnKey (r + 2) := by decide
  have hstep : ∀ d, turnKey (p + d) = turnKey (p % 4 + d) := by
    intro d
    rw [turnKey_mod, turnKey_mod (p % 4 + d), Nat.mod_add_mod]
  have h0 := hstep 0
  rw [Nat.add_zero, Nat.add_zero] at h0
  rw [hstep 1, hstep 2, h0]
  exact h _ (Nat.mod_lt p (by decide))

/-- A table of capacity 2 with key 5 in slot 0. -/
def oneSlot : MemIndex 1 where
  entries := fun i => if i = 0 then sampleEntry 5 1 else MemIndexEntry.zero
  psl := fun i => if i = 0 then 1 else 0
  size := 1
  globalSequence := 0

theorem upsert_oneSlot : (fresh 1).upsert 5 (sampleEntry 5 1) = (oneSlot, true) ∧
    oneSlot.upsert 7 (sampleEntry 7 1) = (twoSlots 5 7 1, true) :=
  ⟨Prod.ext (eq_of_slots (by decide +kernel) (by decide +kernel) (by decide +kernel)
      (by decide +kernel)) (by decide +kernel),
    Prod.ext (eq_of_slots (by decide +kernel) (by decide +kernel) (by decide +kernel)
      (by decide +kernel)) (by decide +kernel)⟩

/-- Four calls fill the table of capacity 2. -/
theorem run_twoSlots_three : (indexMachine 1).run (fresh 1)
    [.upsert (sampleEntry 5 1), .upsert (sampleEntry 7 1), .upsert (sampleEntry 3 1),
      .upsert (sampleEntry 4 1)] = some (twoSlots 4 3 3) := by
  have h1 : (indexMachine 1).step (fresh 1) (.upsert (sampleEntry 5 1)) = some oneSlot :=
    step_upsert upsert_oneSlot.1
  have h2 : (indexMachine 1).step oneSlot (.upsert (sampleEntry 7 1)) =
      some (twoSlots 5 7 1) := step_upsert upsert_oneSlot.2
  have h3 : (indexMachine 1).step (twoSlots 5 7 1) (.upsert (sampleEntry 3 1)) =
      some (twoSlots 3 5 2) :=
    step_upsert (upsert_twoSlots (by decide) (by decide) (by decide) (by decide)
      (by decide +kernel))
  have h4 : (indexMachine 1).step (twoSlots 3 5 2) (.upsert (sampleEntry 4 1)) =
      some (twoSlots 4 3 3) :=
    step_upsert (upsert_twoSlots (by decide) (by decide) (by decide) (by decide)
      (by decide +kernel))
  simp only [Machine.run, h1, h2, h3, h4, Option.bind_some]

/-- Full tables of capacity 2 with ever larger stored lengths are reached. -/
theorem exists_run_twoSlots (p : ℕ) (h2 : 2 ≤ p) (h125 : p ≤ 125) :
    ∃ ops, (indexMachine 1).run (fresh 1) ops =
      some (twoSlots (turnKey (p + 1)) (turnKey p) (p + 1)) := by
  induction p, h2 using Nat.le_induction with
  | base =>
      have hkeys : turnKey (2 + 1) = 4 ∧ turnKey 2 = 3 := by decide
      rw [hkeys.1, hkeys.2]
      exact ⟨_, run_twoSlots_three⟩
  | succ p _ ih =>
      obtain ⟨ops, hops⟩ := ih (by omega)
      have hcall : (twoSlots (turnKey (p + 1)) (turnKey p) (p + 1)).upsert
          (sampleEntry (turnKey (p + 2)) 1).key (sampleEntry (turnKey (p + 2)) 1) =
          (twoSlots (turnKey (p + 2)) (turnKey (p + 1)) (p + 2), decide (p + 1 + 3 ≤ 128)) := by
        rw [sampleEntry_key]
        exact upsert_twoSlots (Nat.succ_pos p) (by omega) (turnKey_ne p).1 (turnKey_ne p).2
          (home_turnKey (p + 2))
      refine ⟨ops ++ [.upsert (sampleEntry (turnKey (p + 2)) 1)], ?_⟩
      rw [Machine.run_append, hops, Option.bind_some, Machine.run_singleton]
      exact step_upsert hcall

/-- The last call. -/
theorem upsert_twoSlots_last : (twoSlots 3 2 126).upsert 4 (sampleEntry 4 1) =
    (twoSlots 4 3 127, false) :=
  upsert_twoSlots (by decide) (by decide) (by decide) (by decide) (by decide +kernel)

/-- The failed call in the full table swaps, and so it does not leave all lookups alone. -/
theorem upsert_atomic_twoSlots :
    ¬ ((∀ key, ((twoSlots 3 2 126).upsert 4 (sampleEntry 4 1)).1.find key =
        (twoSlots 3 2 126).find key ∧
      ((twoSlots 3 2 126).upsert 4 (sampleEntry 4 1)).1.findEntry key =
        (twoSlots 3 2 126).findEntry key) ∧
      ((twoSlots 3 2 126).upsert 4 (sampleEntry 4 1)).1.size = (twoSlots 3 2 126).size) := by
  have hf : ((twoSlots 3 2 126).upsert (sampleEntry 4 1).key (sampleEntry 4 1)).2 = false := by
    rw [sampleEntry_key, upsert_twoSlots_last]
  have hswap : (twoSlots 3 2 126).Displaces 4 :=
    displaces_iff.mpr ⟨127, (twoSlots_swapsAt (by decide) (by decide) (by decide) (by decide)
      (by decide +kernel)).1⟩
  have hlive : (sampleEntry 4 1).deleted = false := by
    rw [sampleEntry, tagged_deleted]
  have h := (upsert_atomic_iff hf).2 hlive
  rw [sampleEntry_key] at h
  exact fun hsame => h.mp hsame hswap

/-- **A failed call that inserts**: in a full table of capacity 2 the call for a key that is
not found returns `false`, and then the key is found. -/
theorem upsert_failure_inserts :
    ∃ (ops : List IndexOp) (m : MemIndex 1), (indexMachine 1).run (fresh 1) ops = some m ∧
      (m.upsert 4 (sampleEntry 4 1)).2 = false ∧ m.findEntry 4 = none ∧
      (m.upsert 4 (sampleEntry 4 1)).1.findEntry 4 = some (sampleEntry 4 1) := by
  have hkeys : turnKey (125 + 1) = 3 ∧ turnKey 125 = 2 := by decide
  obtain ⟨ops, hops⟩ := exists_run_twoSlots 125 (by decide) le_rfl
  rw [hkeys.1, hkeys.2] at hops
  refine ⟨ops, twoSlots 3 2 126, hops, congrArg Prod.snd upsert_twoSlots_last, ?_, ?_⟩
  · decide +kernel
  · rw [congrArg Prod.fst upsert_twoSlots_last]
    decide +kernel

end MemIndex

end SpdkKv
