import SpdkKv.IndexMap

/-!
# When `upsert` Finds Room

The walk of `upsert` for an absent key visits the slots behind the home slot of the key, one a
turn, until it meets a free one; swaps change what it carries and how far that has come, but
not the slots ahead. The walk gives up when what it carries has come more than 128 turns.

## Main results

* `Wf.upsert_ok_iff`: **a call for an absent key succeeds exactly when** up to the first free
  slot nothing comes too far.
* `Wf.acceptedOp_iff`: when the index takes an entry, read off the table.
-/

namespace SpdkKv

namespace MemIndex

variable {n : ℕ} {m : MemIndex n} {key : UInt64}

/-- How far what the walk of `upsert` carries on its turn `t` has come: one more than the turn
before, or two more than the length stored for the entry that a swap takes up. -/
def carriedDist (m : MemIndex n) (key : UInt64) : ℕ → ℕ
  | 0 => 0
  | t + 1 =>
      if m.psl (probe n key t) < m.carriedDist key t + 1 then m.psl (probe n key t) + 1 + 1
      else m.carriedDist key t + 1

/-- The walk comes to a free slot before it gives up. -/
def FindsRoom (m : MemIndex n) (key : UInt64) : Prop :=
  ∃ t < 2 ^ n, m.vacant (probe n key t) = true ∧ ∀ j ≤ t, m.carriedDist key j ≤ 128

instance (m : MemIndex n) (key : UInt64) : Decidable (m.FindsRoom key) :=
  inferInstanceAs (Decidable (∃ t < 2 ^ n, _))

/-- Room does not depend on the sequence of the index. -/
theorem findsRoom_withGlobalSequence {sequence : UInt32} :
    ({ m with globalSequence := sequence } : MemIndex n).FindsRoom key ↔ m.FindsRoom key := by
  have hdist : ∀ t, ({ m with globalSequence := sequence } : MemIndex n).carriedDist key t =
      m.carriedDist key t := by
    intro t
    induction t with
    | zero => rfl
    | succ t ih => rw [carriedDist, carriedDist, ih]
  simp only [FindsRoom, hdist]
  rfl

/-- The walk on its turn `t`, in front of the first free slot: the slots ahead are those of the
old table. -/
structure Ahead (m : MemIndex n) (key : UInt64) (first t : ℕ) (s : UpsertState n) : Prop where
  le : t ≤ first
  idx : s.idx = probe n key t
  dist : s.dist = m.carriedDist key t
  carried : ∀ j ≤ t, m.carriedDist key j ≤ 128
  psl : ∀ j, t ≤ j → j ≤ first → s.table.psl (probe n key j) = m.psl (probe n key j)
  vacant : ∀ j, t ≤ j → j ≤ first → s.table.vacant (probe n key j) = m.vacant (probe n key j)

/-- The next turn. -/
theorem Ahead.succ {first t : ℕ} {s s' : UpsertState n} (h : Ahead m key first t s)
    (hfirst : first < 2 ^ n) (hlt : t < first) (hidx : s'.idx = next s.idx)
    (hdist : s'.dist = m.carriedDist key (t + 1)) (h128 : s'.dist ≤ 128)
    (htable : s'.table = s.table ∨ ∃ e p, s'.table = s.table.place s.idx e p) :
    Ahead m key first (t + 1) s' where
  le := hlt
  idx := by rw [hidx, h.idx, probe_succ]
  dist := hdist
  carried := by
    intro j hj
    rcases Nat.lt_succ_iff_lt_or_eq.mp (Nat.lt_succ_of_le hj) with hlt | rfl
    · exact h.carried j (Nat.le_of_lt_succ hlt)
    · rwa [← hdist]
  psl := by
    intro j hj hjf
    rw [← h.psl j (by omega) hjf]
    rcases htable with heq | ⟨e, p, heq⟩
    · rw [heq]
    · have hne : probe n key j ≠ s.idx := by
        rw [h.idx]
        exact probe_ne_of_lt (by omega) (by omega)
      rw [heq, place_psl_ne hne]
  vacant := by
    intro j hj hjf
    rw [← h.vacant j (by omega) hjf]
    rcases htable with heq | ⟨e, p, heq⟩
    · rw [heq]
    · have hne : probe n key j ≠ s.idx := by
        rw [h.idx]
        exact probe_ne_of_lt (by omega) (by omega)
      rw [heq, MemIndex.vacant, MemIndex.vacant, place_psl_ne hne, place_entries_ne hne]

/-- **When a call for an absent key succeeds.** -/
theorem Wf.upsert_ok_iff (hm : m.Wf) {e : MemIndexEntry} (hk : e.key = key)
    (habs : m.Absent key) (hfree : m.Displaces key → ∃ i, ¬ m.Occupied i) :
    (m.upsert key e).2 = true ↔ m.FindsRoom key := by
  by_cases hex : ∃ i, ¬ m.Occupied i
  · obtain ⟨i, hi⟩ := hex
    obtain ⟨u, hu, rfl⟩ : ∃ u < 2 ^ n, probe n key u = i :=
      ⟨_, displacement_lt key i, probe_displacement key i⟩
    have hsome : ∃ t, m.vacant (probe n key t) = true := ⟨u, (hm.vacant_iff _).mpr hi⟩
    have hfirst : Nat.find hsome < 2 ^ n :=
      lt_of_le_of_lt (Nat.find_min' hsome ((hm.vacant_iff _).mpr hi)) hu
    -- what comes too far in front of the first free slot does so on the way to every free one
    have hno : ∀ t ≤ Nat.find hsome, 128 < m.carriedDist key t → ¬ m.FindsRoom key := by
      rintro t ht h128 ⟨t', -, hv, hle⟩
      exact absurd (hle t (ht.trans (Nat.find_min' hsome hv))) (not_le.mpr h128)
    refine (upsertLoop key).run_induction
      (fun s => AbsentWalk m key e s ∧ ∃ t, Ahead m key (Nat.find hsome) t s)
      (fun r => r.2 = true ↔ m.FindsRoom key) ?_ (s := ⟨m, home n key, 0, tagged key e⟩)
      ⟨⟨carrying_start hm hk habs, Or.inl ⟨(tagged_key key e).trans hk, hfree⟩⟩, 0,
        Nat.zero_le _, rfl, rfl, fun j hj => by rw [Nat.le_zero.mp hj]; exact Nat.zero_le _,
        fun _ _ _ => rfl, fun _ _ _ => rfl⟩
    rintro s ⟨h, t, ha⟩
    have hvac := ha.vacant t le_rfl ha.le
    have hpsl := ha.psl t le_rfl ha.le
    rw [← ha.idx] at hvac hpsl
    by_cases hv : s.table.vacant s.idx = true
    · rw [upsertBody_of_vacant hv]
      rw [hv] at hvac
      have ht : t < 2 ^ n := lt_of_le_of_lt ha.le hfirst
      exact iff_of_true rfl ⟨t, ht, by rw [← ha.idx, ← hvac], ha.carried⟩
    · have ho : s.table.Occupied s.idx := by
        by_contra hno
        exact hv ((h.carrying.wf.vacant_iff _).mpr hno)
      have hlt : t < Nat.find hsome := by
        refine Nat.lt_of_le_of_ne ha.le ?_
        rintro rfl
        exact hv (by rw [hvac, ha.idx]; exact Nat.find_spec hsome)
      have hturn := h.turn
      by_cases hp : s.table.psl s.idx < s.dist + 1
      · have hbody := upsertBody_of_swap hv (h.key_ne ho) hp
        have hdist : s.table.psl s.idx + 1 + 1 = m.carriedDist key (t + 1) := by
          rw [carriedDist, ← ha.dist, ← ha.idx, ← hpsl, if_pos hp]
        split_ifs at hbody with h128
        · rw [hbody]
          rw [hdist] at h128
          exact iff_of_false Bool.false_ne_true (hno _ hlt h128)
        · rw [hbody] at hturn ⊢
          rcases hturn with ⟨s', hs', hw, -⟩ | ⟨_, hs', -⟩ | ⟨_, hs', -⟩
          · obtain rfl := Sum.inl.inj hs'
            exact ⟨hw, t + 1, ha.succ hfirst hlt rfl hdist (not_lt.mp h128) (.inr ⟨_, _, rfl⟩)⟩
          · cases hs'
          · cases hs'
      · have hbody := upsertBody_of_walk hv (h.key_ne ho) hp
        have hdist : s.dist + 1 = m.carriedDist key (t + 1) := by
          rw [carriedDist, ← ha.dist, ← ha.idx, ← hpsl, if_neg hp]
        split_ifs at hbody with h128
        · rw [hbody]
          rw [hdist] at h128
          exact iff_of_false Bool.false_ne_true (hno _ hlt h128)
        · rw [hbody] at hturn ⊢
          rcases hturn with ⟨s', hs', hw, -⟩ | ⟨_, hs', -⟩ | ⟨_, hs', -⟩
          · obtain rfl := Sum.inl.inj hs'
            exact ⟨hw, t + 1, ha.succ hfirst hlt rfl hdist (not_lt.mp h128) (.inl rfl)⟩
          · cases hs'
          · cases hs'
  · push Not at hex
    refine iff_of_false (fun hok => ?_) ?_
    · obtain ⟨f, hf, -⟩ := (hm.occupied_upsert_absent hk habs hfree).1 hok
      exact hf (hex f)
    · rintro ⟨t, -, hv, -⟩
      exact (hm.vacant_iff _).mp hv (hex _)

/-- **When the index takes an entry**: the call is orderly, and finds room for a new key. -/
theorem Wf.acceptedOp_iff (hm : m.Wf) {e : MemIndexEntry} :
    m.AcceptedOp (.upsert e) ↔ m.Orderly e.key ∧ (m.Absent e.key → m.FindsRoom e.key) := by
  refine and_congr_right fun hord => ?_
  by_cases habs : m.Absent e.key
  · rw [hm.upsert_ok_iff rfl habs fun h => (hord h).2]
    exact ⟨fun h _ => h, fun h => h habs⟩
  · obtain ⟨i, ho, hki⟩ : ∃ i, m.Occupied i ∧ (m.entries i).key = e.key := by
      simpa [Absent] using habs
    rw [hm.upsert_stored ho hki fun h => habs (hord h).1]
    exact iff_of_true rfl fun h => absurd h habs

end MemIndex

end SpdkKv
