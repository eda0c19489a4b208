import Mathlib.Dynamics.PeriodicPts.Defs
import SpdkKv.MemIndex

/-!
# Probe Paths and Lookup

The slots that a lookup of a key visits, the well-formedness of a table, and what `find`
returns on a well-formed table. A slot is occupied when its stored probe length is
positive. The heart of well-formedness is the path condition: every slot that probing
visits before it reaches the entry of a key is occupied and stores a length that does not
stop the probe.

## Main results

* `iterate_next_surjective`: probing from any slot reaches every slot.
* `find_eq_some_iff`: what a lookup finds, in any table.
* `findEntry_eq_some_iff`: **the meaning of `find`** — it returns exactly the stored entries
  that are not deleted.
* `Wf.place`: putting an entry at the end of its probe path keeps a table well formed.
* `Wf.update`: so does replacing the entry of a slot by one with the same key.
-/

namespace SpdkKv

namespace MemIndex

variable {n : ℕ}

/-! ### Probe sequences -/

/-- The slot that probing for `key` visits after `d` turns. -/
def probe (n : ℕ) (key : UInt64) (d : ℕ) : Fin (2 ^ n) := next^[d] (home n key)

theorem probe_zero (key : UInt64) : probe n key 0 = home n key := rfl

theorem probe_succ (key : UInt64) (d : ℕ) : probe n key (d + 1) = next (probe n key d) :=
  Function.iterate_succ_apply' next d _

theorem slotOf_val (x : ℕ) : (slotOf n x).val = x % 2 ^ n :=
  Nat.and_two_pow_sub_one_eq_mod x n

theorem iterate_next_val (i : Fin (2 ^ n)) (s : ℕ) :
    (next^[s] i).val = (i.val + s) % 2 ^ n := by
  induction s with
  | zero => exact (Nat.mod_eq_of_lt i.isLt).symm
  | succ s ih =>
      rw [Function.iterate_succ_apply', next, slotOf_val, ih, Nat.mod_add_mod, add_assoc]

/-- Probing from any slot reaches every slot. -/
theorem iterate_next_surjective (i f : Fin (2 ^ n)) : ∃ s, next^[s] i = f := by
  refine ⟨f.val + 2 ^ n - i.val, Fin.ext ?_⟩
  have hi := i.isLt
  rw [iterate_next_val, show i.val + (f.val + 2 ^ n - i.val) = f.val + 2 ^ n by omega,
    Nat.add_mod_right, Nat.mod_eq_of_lt f.isLt]

/-- A probe that comes back to its start has visited every slot. -/
theorem exists_iterate_lt_of_return {i : Fin (2 ^ n)} {t : ℕ} (ht : 0 < t)
    (hret : next^[t] i = i) (f : Fin (2 ^ n)) : ∃ s < t, next^[s] i = f := by
  obtain ⟨s, hs⟩ := iterate_next_surjective i f
  refine ⟨s % t, Nat.mod_lt _ ht, ?_⟩
  rw [← hs]
  exact Function.IsPeriodicPt.iterate_mod_apply hret s

/-! ### Displacements -/

/-- How far a slot lies from the home slot of a key. -/
def displacement (n : ℕ) (key : UInt64) (i : Fin (2 ^ n)) : ℕ :=
  if (home n key).val ≤ i.val then i.val - (home n key).val
  else 2 ^ n - (home n key).val + i.val

/-- It is the least number of turns after which the walk is at the slot. -/
theorem displacement_eq {key : UInt64} {i : Fin (2 ^ n)} {d : ℕ} (h : probe n key d = i) :
    displacement n key i = d % 2 ^ n := by
  have hh := (home n key).isLt
  rw [displacement, ← h, probe, iterate_next_val, Nat.add_mod, Nat.mod_eq_of_lt hh]
  have hd := Nat.mod_lt d (Nat.two_pow_pos n)
  generalize d % 2 ^ n = r at *
  rcases Nat.lt_or_ge ((home n key).val + r) (2 ^ n) with hlt | hge
  · rw [Nat.mod_eq_of_lt hlt, if_pos (Nat.le_add_right _ _), Nat.add_sub_cancel_left]
  · rw [Nat.mod_eq_sub_mod hge, Nat.mod_eq_of_lt (by omega), if_neg (by omega)]
    omega

theorem displacement_le {key : UInt64} {i : Fin (2 ^ n)} {d : ℕ} (h : probe n key d = i) :
    displacement n key i ≤ d := by
  rw [displacement_eq h]
  exact Nat.mod_le d _

theorem displacement_lt (key : UInt64) (i : Fin (2 ^ n)) : displacement n key i < 2 ^ n := by
  obtain ⟨d, hd⟩ := iterate_next_surjective (home n key) i
  rw [displacement_eq hd]
  exact Nat.mod_lt d (Nat.two_pow_pos n)

theorem probe_displacement (key : UInt64) (i : Fin (2 ^ n)) :
    probe n key (displacement n key i) = i := by
  obtain ⟨d, hd⟩ := iterate_next_surjective (home n key) i
  rw [displacement_eq hd, ← hd]
  refine Fin.ext ?_
  rw [probe, iterate_next_val, iterate_next_val, Nat.add_mod_mod]

/-- No slot is met twice on the way. -/
theorem eq_displacement_of_le {key : UInt64} {i : Fin (2 ^ n)} {j : ℕ}
    (hj : j ≤ displacement n key i) (h : probe n key j = i) : j = displacement n key i := by
  have hlt := displacement_lt key i
  rw [displacement_eq h, Nat.mod_eq_of_lt (by omega)]

/-- A slot is visited once on each way around the table. -/
theorem probe_ne_of_lt {key : UInt64} {j t : ℕ} (hjt : j < t) (ht : t < 2 ^ n) :
    probe n key t ≠ probe n key j := by
  intro h
  have hj := displacement_eq h.symm
  rw [displacement_eq (rfl : probe n key t = _), Nat.mod_eq_of_lt ht,
    Nat.mod_eq_of_lt (hjt.trans ht)] at hj
  omega

/-! ### Well-formed tables -/

/-- The slot has been taken. -/
def Occupied (m : MemIndex n) (i : Fin (2 ^ n)) : Prop := 0 < m.psl i

/-- The table holds the entry `e` in some slot, deleted or not. -/
def Holds (m : MemIndex n) (e : MemIndexEntry) : Prop := ∃ i, m.Occupied i ∧ m.entries i = e

/-- No slot holds an entry of `key`, not even a deleted one. -/
def Absent (m : MemIndex n) (key : UInt64) : Prop :=
  ∀ i, m.Occupied i → (m.entries i).key ≠ key

/-- The first `d` slots that probing for `key` visits are occupied and do not stop it. -/
def OnPath (m : MemIndex n) (key : UInt64) (d : ℕ) : Prop :=
  ∀ j < d, m.Occupied (probe n key j) ∧ j ≤ m.psl (probe n key j)

/-- Well-formedness of a table. -/
structure Wf (m : MemIndex n) : Prop where
  /-- A slot that was never taken is zeroed. -/
  unused : ∀ i, ¬ m.Occupied i → m.entries i = MemIndexEntry.zero
  /-- Every entry carries the fingerprint of its key. -/
  tag_eq : ∀ i, m.Occupied i → (m.entries i).tag = HashUtil.tag (m.entries i).key
  /-- Every entry lies on the probe path of its key, at most 128 turns from home. -/
  path : ∀ i, m.Occupied i → ∃ d ≤ 128, d ≤ m.psl i ∧ probe n (m.entries i).key d = i ∧
    m.OnPath (m.entries i).key d
  /-- Every key has at most one entry. -/
  inj : ∀ i j, m.Occupied i → m.Occupied j → (m.entries i).key = (m.entries j).key → i = j

theorem OnPath.succ {m : MemIndex n} {key : UInt64} {d : ℕ} (h : m.OnPath key d)
    (ho : m.Occupied (probe n key d)) (hd : d ≤ m.psl (probe n key d)) :
    m.OnPath key (d + 1) := by
  intro j hj
  rcases Nat.lt_succ_iff_lt_or_eq.mp hj with hlt | rfl
  · exact h j hlt
  · exact ⟨ho, hd⟩

theorem fresh_wf (n : ℕ) : (fresh n).Wf where
  unused := fun _ _ => rfl
  tag_eq := fun _ h => absurd h (Nat.lt_irrefl 0)
  path := fun _ h => absurd h (Nat.lt_irrefl 0)
  inj := fun _ _ h => absurd h (Nat.lt_irrefl 0)

theorem Wf.withGlobalSequence {m : MemIndex n} (hm : m.Wf) {sequence : UInt32} :
    ({ m with globalSequence := sequence } : MemIndex n).Wf :=
  ⟨hm.unused, hm.tag_eq, hm.path, hm.inj⟩

theorem fresh_absent (n : ℕ) (key : UInt64) : (fresh n).Absent key :=
  fun _ h => absurd h (Nat.lt_irrefl 0)

/-- On a well-formed table the emptiness test of the source is that of the stored length. -/
theorem Wf.vacant_iff {m : MemIndex n} (hm : m.Wf) (i : Fin (2 ^ n)) :
    m.vacant i = true ↔ ¬ m.Occupied i := by
  constructor
  · intro h ho
    have hz : m.psl i = 0 := by simpa [vacant] using (Bool.and_eq_true_iff.mp h).1
    exact absurd ho (by rw [Occupied, hz]; exact Nat.lt_irrefl 0)
  · intro h
    have hz : m.psl i = 0 := Nat.eq_zero_of_not_pos h
    rw [vacant, hz, hm.unused i h]
    rfl

/-! ### Lookup -/

/-- The slot holds a live entry of the key, with its fingerprint. -/
def Matches (m : MemIndex n) (key : UInt64) (i : Fin (2 ^ n)) : Prop :=
  (m.entries i).tag = HashUtil.tag key ∧ (m.entries i).key = key ∧ ¬ (m.entries i).deleted

/-- A lookup is not stopped on its first `d` turns and the one behind them. -/
def Unstopped (psl : Fin (2 ^ n) → ℕ) (key : UInt64) (d : ℕ) : Prop :=
  ∀ j ≤ d, j ≤ psl (probe n key j)

instance (psl : Fin (2 ^ n) → ℕ) (key : UInt64) (d : ℕ) : Decidable (Unstopped psl key d) :=
  inferInstanceAs (Decidable (∀ _, _ → _))

/-- **What a lookup finds**: the first match on the way, if it comes there. -/
theorem find_eq_some_iff {m : MemIndex n} {key : UInt64} {i : Fin (2 ^ n)} :
    m.find key = some i ↔ ∃ d ≤ 128, probe n key d = i ∧ m.Matches key i ∧
      Unstopped m.psl key d ∧ ∀ j < d, ¬ m.Matches key (probe n key j) := by
  constructor
  · intro h
    refine (m.findLoop key (HashUtil.tag key)).run_induction
      (fun s => s.1 = probe n key s.2 ∧ s.2 ≤ 128 ∧ (∀ j < s.2, j ≤ m.psl (probe n key j)) ∧
        ∀ j < s.2, ¬ m.Matches key (probe n key j))
      (fun r => ∀ i, r = some i → ∃ d ≤ 128, probe n key d = i ∧ m.Matches key i ∧
        Unstopped m.psl key d ∧ ∀ j < d, ¬ m.Matches key (probe n key j))
      ?_ (s := (home n key, 0))
      ⟨rfl, Nat.zero_le _, fun j hj => absurd hj (Nat.not_lt_zero j),
        fun j hj => absurd hj (Nat.not_lt_zero j)⟩ i h
    rintro ⟨idx, dist⟩ ⟨hidx, hle, hpsl, hno⟩
    dsimp only at hidx hle hpsl hno
    subst hidx
    simp only [findLoop]
    split_ifs with h1 h2 h3
    · simp
    · rintro i hi
      obtain rfl := Option.some.inj hi
      refine ⟨dist, hle, rfl, h2, fun j hj => ?_, hno⟩
      rcases Nat.lt_or_eq_of_le hj with hlt | rfl
      · exact hpsl j hlt
      · exact not_lt.mp h1
    · simp
    · refine ⟨(probe_succ key dist).symm, not_lt.mp h3, fun j hj => ?_, fun j hj => ?_⟩
      · rcases Nat.lt_succ_iff_lt_or_eq.mp hj with hlt | rfl
        · exact hpsl j hlt
        · exact not_lt.mp h1
      · rcases Nat.lt_succ_iff_lt_or_eq.mp hj with hlt | rfl
        · exact hno j hlt
        · exact h2
  · rintro ⟨d, hd, rfl, hmatch, hpsl, hno⟩
    refine (m.findLoop key (HashUtil.tag key)).run_induction
      (fun s => s.1 = probe n key s.2 ∧ s.2 ≤ d) (fun r => r = some (probe n key d)) ?_
      (s := (home n key, 0)) ⟨rfl, Nat.zero_le d⟩
    rintro ⟨idx, dist⟩ ⟨hidx, hle⟩
    dsimp only at hidx hle
    subst hidx
    simp only [findLoop]
    split_ifs with h1 h2 h3
    · exact absurd h1 (not_lt.mpr (hpsl dist hle))
    · rcases Nat.lt_or_eq_of_le hle with hlt | rfl
      · exact absurd h2 (hno dist hlt)
      · rfl
    · have hne : dist = d := by omega
      subst hne
      exact absurd hmatch h2
    · refine ⟨(probe_succ key dist).symm, ?_⟩
      rcases Nat.lt_or_eq_of_le hle with hlt | rfl
      · exact hlt
      · exact absurd hmatch h2

/-- Where only one slot on the way matches, that slot is found. -/
theorem find_eq_of_match {m : MemIndex n} {key : UInt64} {d : ℕ} (hd : d ≤ 128)
    (hmatch : m.Matches key (probe n key d)) (hpsl : Unstopped m.psl key d)
    (hone : ∀ j ≤ d, m.Matches key (probe n key j) → probe n key j = probe n key d) :
    m.find key = some (probe n key d) := by
  classical
  have hex : ∃ j, m.Matches key (probe n key j) := ⟨d, hmatch⟩
  have hle : Nat.find hex ≤ d := Nat.find_min' hex hmatch
  exact find_eq_some_iff.mpr ⟨Nat.find hex, hle.trans hd, hone _ hle (Nat.find_spec hex), hmatch,
    fun j hj => hpsl j (hj.trans hle), fun j hj => Nat.find_min hex hj⟩

/-- A slot that `find` returns matches the key. -/
theorem matches_of_find {m : MemIndex n} {key : UInt64} {i : Fin (2 ^ n)}
    (h : m.find key = some i) : m.Matches key i := by
  obtain ⟨-, -, -, hmatch, -⟩ := find_eq_some_iff.mp h
  exact hmatch

theorem tag_zero_ne : HashUtil.tag 0 ≠ 0 := by decide +kernel

/-- Where the unused slots are zeroed, a match is an occupied slot. -/
theorem occupied_of_matches {m : MemIndex n}
    (hunused : ∀ i, ¬ m.Occupied i → m.entries i = MemIndexEntry.zero) {key : UInt64}
    {i : Fin (2 ^ n)} (h : m.Matches key i) : m.Occupied i := by
  by_contra hno
  obtain ⟨ht, hk, -⟩ := h
  -- an unused slot is zeroed and never carries the fingerprint of key 0
  rw [hunused i hno] at ht hk
  rw [← hk] at ht
  exact tag_zero_ne ht.symm

/-- In a well-formed table a match is an occupied slot. -/
theorem Wf.occupied_of_matches {m : MemIndex n} (hm : m.Wf) {key : UInt64} {i : Fin (2 ^ n)}
    (h : m.Matches key i) : m.Occupied i :=
  MemIndex.occupied_of_matches hm.unused h

/-- A slot that `find` returns holds a live entry of the key. -/
theorem Wf.of_find {m : MemIndex n} (hm : m.Wf) {key : UInt64} {i : Fin (2 ^ n)}
    (h : m.find key = some i) :
    m.Occupied i ∧ (m.entries i).key = key ∧ (m.entries i).deleted = false := by
  have hmatch := matches_of_find h
  exact ⟨hm.occupied_of_matches hmatch, hmatch.2.1, by simpa using hmatch.2.2⟩

/-- The live entry of a key is found. -/
theorem Wf.find_eq {m : MemIndex n} (hm : m.Wf) {key : UInt64} {i : Fin (2 ^ n)}
    (ho : m.Occupied i) (hk : (m.entries i).key = key)
    (hd : (m.entries i).deleted = false) : m.find key = some i := by
  obtain ⟨d, hd128, hdi, hpi, hpath⟩ := hm.path i ho
  rw [hk] at hpi hpath
  have htag : (m.entries i).tag = HashUtil.tag key := hk ▸ hm.tag_eq i ho
  have hmatch : m.Matches key (probe n key d) := by
    rw [hpi]
    exact ⟨htag, hk, by simp [hd]⟩
  have hpsl : Unstopped m.psl key d := by
    intro j hj
    rcases Nat.lt_or_eq_of_le hj with hlt | rfl
    · exact (hpath j hlt).2
    · rw [hpi]
      exact hdi
  rw [find_eq_of_match hd128 hmatch hpsl, hpi]
  intro j _ hj
  -- the table holds a key once
  exact hm.inj _ _ (hm.occupied_of_matches hj) (hm.occupied_of_matches hmatch)
    (hj.2.1.trans hmatch.2.1.symm)

/-- **The meaning of `find`**: it returns exactly the stored entries that are not deleted. -/
theorem Wf.findEntry_eq_some_iff {m : MemIndex n} (hm : m.Wf) {key : UInt64}
    {e : MemIndexEntry} :
    m.findEntry key = some e ↔ m.Holds e ∧ e.key = key ∧ e.deleted = false := by
  constructor
  · intro h
    obtain ⟨i, hi, rfl⟩ := Option.map_eq_some_iff.mp h
    obtain ⟨ho, hk, hd⟩ := hm.of_find hi
    exact ⟨⟨i, ho, rfl⟩, hk, hd⟩
  · rintro ⟨⟨i, ho, rfl⟩, hk, hd⟩
    rw [findEntry, hm.find_eq ho hk hd, Option.map_some]

/-- A well-formed table holds at most one entry of a key. -/
theorem Wf.holds_unique {m : MemIndex n} (hm : m.Wf) {e e' : MemIndexEntry}
    (h : m.Holds e) (h' : m.Holds e') (hk : e.key = e'.key) : e = e' := by
  obtain ⟨i, ho, rfl⟩ := h
  obtain ⟨j, ho', rfl⟩ := h'
  rw [hm.inj i j ho ho' hk]

theorem absent_iff_forall_holds {m : MemIndex n} {key : UInt64} :
    m.Absent key ↔ ∀ e, m.Holds e → e.key ≠ key := by
  constructor
  · rintro h e ⟨i, ho, rfl⟩
    exact h i ho
  · intro h i ho
    exact h _ ⟨i, ho, rfl⟩

/-- Well-formedness does not depend on the entry count. -/
theorem Wf.withSize {m : MemIndex n} (hm : m.Wf) {k : ℕ} : ({ m with size := k } : MemIndex n).Wf :=
  ⟨hm.unused, hm.tag_eq, hm.path, hm.inj⟩

/-! ### Writing a slot -/

/-- Put `e` into slot `i` with the stored length `p`. -/
def place (m : MemIndex n) (i : Fin (2 ^ n)) (e : MemIndexEntry) (p : ℕ) : MemIndex n :=
  (m.setEntry i e).setPsl i p

section Place

variable {m : MemIndex n} {i : Fin (2 ^ n)} {e : MemIndexEntry} {p : ℕ}

@[simp] theorem place_entries_self : (m.place i e p).entries i = e := by
  simp [place, setEntry, setPsl]

@[simp] theorem place_psl_self : (m.place i e p).psl i = p := by
  simp [place, setEntry, setPsl]

theorem place_entries_ne {j : Fin (2 ^ n)} (h : j ≠ i) :
    (m.place i e p).entries j = m.entries j := by
  simp [place, setEntry, setPsl, h]

theorem place_psl_ne {j : Fin (2 ^ n)} (h : j ≠ i) : (m.place i e p).psl j = m.psl j := by
  simp [place, setEntry, setPsl, h]

theorem psl_le_place (hp : m.psl i ≤ p) (j : Fin (2 ^ n)) :
    m.psl j ≤ (m.place i e p).psl j := by
  by_cases h : j = i
  · subst h
    rwa [place_psl_self]
  · rw [place_psl_ne h]

theorem OnPath.place {key : UInt64} {d : ℕ} (h : m.OnPath key d) (hp : m.psl i ≤ p) :
    (m.place i e p).OnPath key d := fun j hj =>
  ⟨lt_of_lt_of_le (h j hj).1 (psl_le_place hp _), le_trans (h j hj).2 (psl_le_place hp _)⟩

theorem occupied_place_of_ne {j : Fin (2 ^ n)} (h : j ≠ i) :
    (m.place i e p).Occupied j ↔ m.Occupied j := by
  rw [Occupied, Occupied, place_psl_ne h]

/-- What a table holds after writing a slot: the new entry and those of the other slots. -/
theorem holds_place_iff (hp : 0 < p) {x : MemIndexEntry} :
    (m.place i e p).Holds x ↔ x = e ∨ ∃ j, j ≠ i ∧ m.Occupied j ∧ m.entries j = x := by
  constructor
  · rintro ⟨j, ho, rfl⟩
    by_cases h : j = i
    · subst h
      exact Or.inl place_entries_self
    · exact Or.inr ⟨j, h, (occupied_place_of_ne h).mp ho, (place_entries_ne h).symm⟩
  · rintro (rfl | ⟨j, h, ho, rfl⟩)
    · exact ⟨i, by rwa [Occupied, place_psl_self], place_entries_self⟩
    · exact ⟨j, (occupied_place_of_ne h).mpr ho, place_entries_ne h⟩

/-- Writing an entry at the end of its probe path keeps a table well formed, provided no
other slot holds its key and the stored length does not decrease. -/
theorem Wf.place (hm : m.Wf) (hp : m.psl i ≤ p) (hpos : 0 < p)
    (htag : e.tag = HashUtil.tag e.key)
    (hkey : ∀ j, j ≠ i → m.Occupied j → (m.entries j).key ≠ e.key)
    {d : ℕ} (hd : d ≤ 128) (hdp : d ≤ p) (hprobe : probe n e.key d = i)
    (hpath : m.OnPath e.key d) : (m.place i e p).Wf where
  unused := by
    intro j hj
    by_cases h : j = i
    · subst h
      exact absurd (show (m.place j e p).Occupied j by rwa [Occupied, place_psl_self]) hj
    · rw [place_entries_ne h]
      exact hm.unused j (fun ho => hj ((occupied_place_of_ne h).mpr ho))
  tag_eq := by
    intro j hj
    by_cases h : j = i
    · subst h
      rw [place_entries_self, htag]
    · rw [place_entries_ne h]
      exact hm.tag_eq j ((occupied_place_of_ne h).mp hj)
  path := by
    intro j hj
    by_cases h : j = i
    · subst h
      rw [place_entries_self, place_psl_self]
      exact ⟨d, hd, hdp, hprobe, hpath.place hp⟩
    · obtain ⟨d', hd', hdp', hprobe', hpath'⟩ := hm.path j ((occupied_place_of_ne h).mp hj)
      rw [place_entries_ne h, place_psl_ne h]
      exact ⟨d', hd', hdp', hprobe', hpath'.place hp⟩
  inj := by
    intro j j' hj hj' hk
    by_cases h : j = i <;> by_cases h' : j' = i
    · rw [h, h']
    · subst h
      rw [place_entries_self, place_entries_ne h'] at hk
      exact absurd hk.symm (hkey j' h' ((occupied_place_of_ne h').mp hj'))
    · subst h'
      rw [place_entries_self, place_entries_ne h] at hk
      exact absurd hk (hkey j h ((occupied_place_of_ne h).mp hj))
    · rw [place_entries_ne h, place_entries_ne h'] at hk
      exact hm.inj j j' ((occupied_place_of_ne h).mp hj) ((occupied_place_of_ne h').mp hj') hk

/-- Replacing the entry of an occupied slot is writing it with its old stored length. -/
theorem setEntry_eq_place : m.setEntry i e = m.place i e (m.psl i) := by
  simp only [MemIndex.place, setPsl, setEntry, Function.update_eq_self]

/-- Replacing an entry by one with the same key keeps a table well formed. -/
theorem Wf.update (hm : m.Wf) (ho : m.Occupied i) (hk : e.key = (m.entries i).key)
    (htag : e.tag = HashUtil.tag e.key) : (m.setEntry i e).Wf := by
  obtain ⟨d, hd, hdp, hprobe, hpath⟩ := hm.path i ho
  rw [setEntry_eq_place]
  refine hm.place le_rfl ho htag ?_ hd hdp (hk ▸ hprobe) (hk ▸ hpath)
  intro j hj hoj heq
  exact hj (hm.inj j i hoj ho (heq.trans hk))

end Place

end MemIndex

end SpdkKv
