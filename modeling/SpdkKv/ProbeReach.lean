import Mathlib.Data.Nat.ModEq
import SpdkKv.UpsertFailure

/-!
# Which Entries a Lookup Reaches

The stored lengths of a table are not those of the textbook: `upsert` stores one too little for
an entry that a swap puts down, and carries the one it takes up as if it had come two turns
further. What lookups need is weaker: every slot on the way to an entry stores at least the
turn on which the lookup passes it. Lengths never decrease, so only one turn of a call can break
this: the one that writes what it carries over an entry of the key, and leaves the length of the
slot as it is.

## Main results

* `Labelled.find_ne_none`: the key of an entry that is reached is found.
* `OnWalk.turn`: **what one turn of `upsert` keeps**.
* `allReached_upsert_iff`: when a call keeps the entries reached.
* `Reached.displacement_le_of_swapsAt`, `After.step`: what is carried has come no further than
  the call.
* `callInReach_of_leavesRoom`: so in a table with room it is written in reach.
* `live_entries_found_iff`: **every live entry is found, in every state of a run, exactly when**
  no call writes an entry out of its reach; with room for the calls that displace, none does.
* `full_table_hides_entry`: in a full table the walk comes round to its own entry.
-/

namespace SpdkKv

namespace MemIndex

variable {n : ℕ} {m m' : MemIndex n} {key : UInt64} {i : Fin (2 ^ n)}

/-! ### Reached slots -/

/-- A lookup of the key gets to the slot: it is at most 128 turns from home, and no slot on the
way stores less than the turn. -/
structure Reached (m : MemIndex n) (key : UInt64) (i : Fin (2 ^ n)) : Prop where
  near : displacement n key i ≤ 128
  unstopped : Unstopped m.psl key (displacement n key i)

/-- It does not matter how often the way goes around the table. -/
theorem reached_of_probe {d : ℕ} (hd : d ≤ 128) (hi : probe n key d = i)
    (h : Unstopped m.psl key d) : m.Reached key i :=
  ⟨(displacement_le hi).trans hd, fun j hj => h j (hj.trans (displacement_le hi))⟩

/-- Greater lengths stop no lookup. -/
theorem Reached.mono (h : m.Reached key i) (hp : ∀ j, m.psl j ≤ m'.psl j) : m'.Reached key i :=
  ⟨h.near, fun j hj => (h.unstopped j hj).trans (hp _)⟩

theorem Reached.displacement_le (h : m.Reached key i) : displacement n key i ≤ m.psl i := by
  have hend := h.unstopped _ le_rfl
  rwa [probe_displacement] at hend

/-- What holds of every table: a slot that was never taken is zeroed, and every entry carries
the fingerprint of its key. -/
structure Labelled (m : MemIndex n) : Prop where
  unused : ∀ i, ¬ m.Occupied i → m.entries i = MemIndexEntry.zero
  tag_eq : ∀ i, m.Occupied i → (m.entries i).tag = HashUtil.tag (m.entries i).key

/-- The entries of a kind are reached. -/
def AllReached (C : MemIndexEntry → Prop) (m : MemIndex n) : Prop :=
  ∀ i, m.Occupied i → C (m.entries i) → m.Reached (m.entries i).key i

/-- An entry that a lookup may return. -/
def Live (e : MemIndexEntry) : Prop := e.deleted = false

/-- The key of every live entry is found, and the way to the entry is as it should be. -/
def LiveFound (m : MemIndex n) : Prop :=
  ∀ i, m.Occupied i → Live (m.entries i) →
    m.find (m.entries i).key ≠ none ∧ m.Reached (m.entries i).key i

/-- The slot that the source takes for free is one that was never taken. -/
theorem Labelled.occupied_of_taken (hm : m.Labelled) (hv : m.vacant i ≠ true) :
    m.Occupied i := by
  by_contra hno
  have hpsl : m.psl i = 0 := Nat.eq_zero_of_not_pos hno
  refine hv ?_
  rw [vacant, hpsl, hm.unused i hno]
  rfl

theorem not_occupied_of_vacant (hv : m.vacant i = true) : ¬ m.Occupied i := by
  have hpsl : m.psl i = 0 := by simpa [vacant] using (Bool.and_eq_true_iff.mp hv).1
  rw [Occupied, hpsl]
  exact Nat.lt_irrefl 0

/-- **The key of a live entry that is reached is found.** -/
theorem Labelled.find_ne_none (hm : m.Labelled) (ho : m.Occupied i)
    (hlive : Live (m.entries i)) (h : m.Reached (m.entries i).key i) :
    m.find (m.entries i).key ≠ none := by
  classical
  have hmatch : m.Matches (m.entries i).key
      (probe n (m.entries i).key (displacement n (m.entries i).key i)) := by
    rw [probe_displacement]
    exact ⟨hm.tag_eq i ho, rfl, by rw [hlive]; exact Bool.false_ne_true⟩
  have hex : ∃ j, m.Matches (m.entries i).key (probe n (m.entries i).key j) := ⟨_, hmatch⟩
  have hle := Nat.find_min' hex hmatch
  have hfind : m.find (m.entries i).key = some (probe n (m.entries i).key (Nat.find hex)) :=
    find_eq_some_iff.mpr ⟨_, hle.trans h.near, rfl, Nat.find_spec hex,
      fun j hj => h.unstopped j (hj.trans hle), fun j hj => Nat.find_min hex hj⟩
  rw [hfind]
  exact Option.some_ne_none _

/-- Under the labels, the two forms of the property are one. -/
theorem Labelled.liveFound_iff_allReached (hm : m.Labelled) : m.LiveFound ↔ AllReached Live m :=
  ⟨fun h i ho hlive => (h i ho hlive).2,
    fun h i ho hlive => ⟨hm.find_ne_none ho hlive (h i ho hlive), h i ho hlive⟩⟩

theorem fresh_labelled (n : ℕ) : (fresh n).Labelled :=
  ⟨fun _ _ => rfl, fun _ h => absurd h (Nat.lt_irrefl 0)⟩

theorem fresh_allReached (C : MemIndexEntry → Prop) (n : ℕ) : AllReached C (fresh n) :=
  fun _ h => absurd h (Nat.lt_irrefl 0)

/-! ### Writing a slot -/

section Place

variable {e : MemIndexEntry} {p : ℕ} {C : MemIndexEntry → Prop}

theorem Labelled.place (hm : m.Labelled) (hp : 0 < p) (htag : e.tag = HashUtil.tag e.key) :
    (m.place i e p).Labelled where
  unused := by
    intro j hj
    by_cases hji : j = i
    · subst hji
      exact absurd (show (m.place j e p).Occupied j by rwa [Occupied, place_psl_self]) hj
    · rw [place_entries_ne hji]
      exact hm.unused j fun ho => hj ((occupied_place_of_ne hji).mpr ho)
  tag_eq := by
    intro j hj
    by_cases hji : j = i
    · subst hji
      rwa [place_entries_self]
    · rw [place_entries_ne hji]
      exact hm.tag_eq j ((occupied_place_of_ne hji).mp hj)

/-- With a length that is no less than the old one, only the new entry has to be reached. -/
theorem allReached_place_iff (hm : AllReached C m) (hp : 0 < p) (hle : m.psl i ≤ p) :
    AllReached C (m.place i e p) ↔ (C e → (m.place i e p).Reached e.key i) := by
  constructor
  · intro h hc
    have hi := h i (by rwa [Occupied, place_psl_self])
    rw [place_entries_self] at hi
    exact hi hc
  · intro h j hj hc
    by_cases hji : j = i
    · subst hji
      rw [place_entries_self] at hc ⊢
      exact h hc
    · rw [place_entries_ne hji] at hc ⊢
      exact (hm j ((occupied_place_of_ne hji).mp hj) hc).mono (psl_le_place hle)

theorem place_psl_eq : m.place i e (m.psl i) = m.setEntry i e := by
  rw [MemIndex.place, setPsl]
  simp only [setEntry, Function.update_eq_self]

end Place

/-! ### One turn of a call -/

/-- What holds while `upsert` walks: the entries of the table are reached, and the walk is on the
way to the home of what it carries, which it has come no further than it counts. -/
structure OnWalk (C : MemIndexEntry → Prop) (s : UpsertState n) : Prop where
  labelled : s.table.Labelled
  reached : AllReached C s.table
  near : s.dist ≤ 128
  tag_eq : s.entryToInsert.tag = HashUtil.tag s.entryToInsert.key
  way : C s.entryToInsert → ∃ d ≤ s.dist, probe n s.entryToInsert.key d = s.idx ∧
    ∀ j < d, j ≤ s.table.psl (probe n s.entryToInsert.key j)

/-- The turn writes what is carried over the entry of the key. -/
structure Replaces (key : UInt64) (s : UpsertState n) : Prop where
  taken : s.table.vacant s.idx ≠ true
  key_eq : (s.table.entries s.idx).key = key
  newer : sequenceNewer s.entryToInsert.sequence (s.table.entries s.idx).sequence = true

/-- An entry of the kind is not written over the entry of the key where the length of the slot
is less than its distance from home. -/
def WritesInReach (C : MemIndexEntry → Prop) (key : UInt64) (s : UpsertState n) : Prop :=
  Replaces key s → C s.entryToInsert →
    displacement n s.entryToInsert.key s.idx ≤ s.table.psl s.idx

section Turn

variable {C : MemIndexEntry → Prop} {s : UpsertState n}

/-- What is carried is reached in the slot of the walk, with a length that is enough for it. -/
theorem OnWalk.reached_place (h : OnWalk C s) {p : ℕ} (hle : s.table.psl s.idx ≤ p)
    (hd : s.dist ≤ p) (hc : C s.entryToInsert) :
    (s.table.place s.idx s.entryToInsert p).Reached s.entryToInsert.key s.idx := by
  obtain ⟨d, hdist, hprobe, hway⟩ := h.way hc
  refine reached_of_probe (hdist.trans h.near) hprobe fun j hj => ?_
  rcases Nat.lt_or_eq_of_le hj with hlt | rfl
  · exact (hway j hlt).trans (psl_le_place hle _)
  · rw [hprobe, place_psl_self]
    exact hdist.trans hd

/-- A turn at an entry of the key. -/
theorem OnWalk.replace (h : OnWalk C s) (hv : s.table.vacant s.idx ≠ true)
    (hk : (s.table.entries s.idx).key = key) :
    let t := if sequenceNewer s.entryToInsert.sequence (s.table.entries s.idx).sequence then
      s.table.setEntry s.idx s.entryToInsert else s.table
    t.Labelled ∧ (AllReached C t ↔ WritesInReach C key s) := by
  have ho := h.labelled.occupied_of_taken hv
  by_cases hnewer : sequenceNewer s.entryToInsert.sequence (s.table.entries s.idx).sequence = true
  · rw [if_pos hnewer, ← place_psl_eq]
    refine ⟨h.labelled.place ho h.tag_eq, ?_⟩
    rw [allReached_place_iff h.reached ho le_rfl]
    constructor
    · intro hreached _ hc
      have hle := (hreached hc).displacement_le
      rwa [place_psl_self] at hle
    · intro hin hc
      have hle := hin ⟨hv, hk, hnewer⟩ hc
      obtain ⟨d, hdist, hprobe, hway⟩ := h.way hc
      refine ⟨(displacement_le hprobe).trans (hdist.trans h.near), fun j hj => ?_⟩
      rw [place_psl_eq]
      rcases Nat.lt_or_eq_of_le hj with hlt | rfl
      · exact hway j (hlt.trans_le (displacement_le hprobe))
      · rw [probe_displacement]
        exact hle
  · rw [if_neg hnewer]
    exact ⟨h.labelled, iff_of_true h.reached fun hr => absurd hr.newer hnewer⟩

/-- After a swap the walk carries the resident, one slot further on. -/
theorem OnWalk.swap (h : OnWalk C s) (hv : s.table.vacant s.idx ≠ true)
    (hp : s.table.psl s.idx < s.dist + 1) :
    (s.table.place s.idx s.entryToInsert s.dist).Labelled ∧
      AllReached C (s.table.place s.idx s.entryToInsert s.dist) ∧
      (s.table.psl s.idx + 1 + 1 ≤ 128 →
        OnWalk C ⟨s.table.place s.idx s.entryToInsert s.dist, next s.idx,
          s.table.psl s.idx + 1 + 1, s.table.entries s.idx⟩) := by
  have ho := h.labelled.occupied_of_taken hv
  have hle : s.table.psl s.idx ≤ s.dist := Nat.lt_succ_iff.mp hp
  have hpos : 0 < s.dist := ho.trans_le hle
  have hlabelled := h.labelled.place (i := s.idx) hpos h.tag_eq
  have hreached : AllReached C (s.table.place s.idx s.entryToInsert s.dist) :=
    (allReached_place_iff h.reached hpos hle).mpr (h.reached_place hle le_rfl)
  refine ⟨hlabelled, hreached, fun hnear => ⟨hlabelled, hreached, hnear,
    h.labelled.tag_eq _ ho, fun hc => ?_⟩⟩
  have hres := h.reached s.idx ho hc
  have hfar := hres.displacement_le
  refine ⟨_, Nat.succ_le_of_lt (Nat.lt_succ_of_le (Nat.le_succ_of_le hfar)), ?_, fun j hj => ?_⟩
  · show probe n _ (displacement n (s.table.entries s.idx).key s.idx + 1) = _
    rw [probe_succ, probe_displacement]
  · exact (hres.unstopped j (Nat.lt_succ_iff.mp hj)).trans (psl_le_place hle _)

/-- The next slot, with the same entry. -/
theorem OnWalk.walk (h : OnWalk C s) (hp : ¬ s.table.psl s.idx < s.dist + 1)
    (hnear : s.dist + 1 ≤ 128) : OnWalk C { s with idx := next s.idx, dist := s.dist + 1 } := by
  refine ⟨h.labelled, h.reached, hnear, h.tag_eq, fun hc => ?_⟩
  obtain ⟨d, hdist, hprobe, hway⟩ := h.way hc
  refine ⟨d + 1, Nat.succ_le_succ hdist, ?_, fun j hj => ?_⟩
  · rw [probe_succ, hprobe]
  · rcases Nat.lt_succ_iff_lt_or_eq.mp hj with hlt | rfl
    · exact hway j hlt
    · dsimp only
      rw [hprobe]
      omega

/-- **What one turn keeps**: the walk goes on as it was, or ends with the entries reached, unless
it writes what it carries out of reach. -/
theorem OnWalk.turn (key : UInt64) (h : OnWalk C s) :
    Sum.elim (OnWalk C) (fun r => r.1.Labelled ∧ (AllReached C r.1 ↔ WritesInReach C key s))
      ((upsertLoop key).body s) := by
  by_cases hv : s.table.vacant s.idx = true
  · have hpsl : s.table.psl s.idx ≤ s.dist + 1 := by
      rw [Nat.eq_zero_of_not_pos (not_occupied_of_vacant hv)]
      exact Nat.zero_le _
    have hreached := (allReached_place_iff (e := s.entryToInsert) h.reached (Nat.succ_pos s.dist)
      hpsl).mpr (h.reached_place hpsl (Nat.le_succ _))
    have hlabelled := h.labelled.place (i := s.idx) (Nat.succ_pos s.dist) h.tag_eq
    rw [upsertBody_of_vacant hv]
    exact ⟨⟨hlabelled.unused, hlabelled.tag_eq⟩,
      iff_of_true (fun i ho hc => ⟨(hreached i ho hc).near, (hreached i ho hc).unstopped⟩)
        fun hr => absurd hv hr.taken⟩
  by_cases hk : (s.table.entries s.idx).key = key
  · rw [upsertBody_of_key hv hk]
    exact h.replace hv hk
  have hno : WritesInReach C key s := fun hr => absurd hr.key_eq hk
  by_cases hp : s.table.psl s.idx < s.dist + 1
  · obtain ⟨hlabelled, hreached, hgo⟩ := h.swap hv hp
    rw [upsertBody_of_swap hv hk hp]
    split_ifs with hfar
    · exact ⟨hlabelled, iff_of_true hreached hno⟩
    · exact hgo (not_lt.mp hfar)
  · rw [upsertBody_of_walk hv hk hp]
    split_ifs with hfar
    · exact ⟨h.labelled, iff_of_true h.reached hno⟩
    · exact h.walk hp (not_lt.mp hfar)

end Turn

/-! ### A call -/

/-- Where the walk of a call begins. -/
def upsertStart (m : MemIndex n) (e : MemIndexEntry) : UpsertState n :=
  ⟨m, home n e.key, 0, tagged e.key e⟩

/-- No turn of the call writes an entry of the kind out of its reach. -/
def CallInReach (C : MemIndexEntry → Prop) (m : MemIndex n) (e : MemIndexEntry) : Prop :=
  ∀ s, (upsertLoop e.key).Visits (m.upsertStart e) s → WritesInReach C e.key s

section Call

variable {C : MemIndexEntry → Prop} {e : MemIndexEntry}

theorem onWalk_upsertStart (hm : m.Labelled) (hr : AllReached C m) : OnWalk C (m.upsertStart e) :=
  ⟨hm, hr, Nat.zero_le _, by rw [upsertStart, tagged_tag, tagged_key],
    fun _ => ⟨0, le_rfl, by rw [upsertStart, tagged_key]; rfl,
      fun j hj => absurd hj (Nat.not_lt_zero j)⟩⟩

/-- **When a call keeps the entries reached.** It keeps the labels in any case. -/
theorem allReached_upsert_iff (hm : m.Labelled) (hr : AllReached C m) :
    (m.upsert e.key e).1.Labelled ∧
      (AllReached C (m.upsert e.key e).1 ↔ CallInReach C m e) := by
  obtain ⟨t, hvisits, hlast⟩ := (upsertLoop e.key).exists_last (m.upsertStart e)
  have hwalk : OnWalk C t := hvisits.invariant (OnWalk C) (fun a b ha hb => by
    have hturn := ha.turn e.key
    rwa [hb] at hturn) (onWalk_upsertStart hm hr)
  have hturn := hwalk.turn e.key
  rw [hlast] at hturn
  refine ⟨hturn.1, hturn.2.trans ⟨fun hin s hs hrep => ?_, fun hall => hall t hvisits⟩⟩
  -- a turn that replaces is the last one
  obtain rfl := hs.last_unique (upsertBody_of_key hrep.taken hrep.key_eq) hvisits hlast
  exact hin hrep

/-- Labels are kept by every call. -/
theorem Labelled.applyOp (hm : m.Labelled) (op : IndexOp) : (m.applyOp op).Labelled := by
  cases op with
  | upsert e => exact (allReached_upsert_iff (C := fun _ => False) hm fun _ _ h => h.elim).1
  | remove key =>
      show (m.remove key).1.Labelled
      rw [remove]
      split
      · next i hi =>
          have ho := occupied_of_matches hm.unused (matches_of_find hi)
          rw [← place_psl_eq]
          exact hm.place ho (hm.tag_eq i ho)
      · exact hm

/-- Removing an entry keeps the entries reached. -/
theorem allReached_remove (hm : m.Labelled) (hr : AllReached C m)
    (hC : ∀ e : MemIndexEntry, C { e with deleted := true } → C e) (key : UInt64) :
    AllReached C (m.remove key).1 := by
  rw [remove]
  split
  · next i hi =>
      have ho := occupied_of_matches hm.unused (matches_of_find hi)
      rw [← place_psl_eq, allReached_place_iff hr ho le_rfl]
      exact fun hc => (hr i ho (hC _ hc)).mono (psl_le_place le_rfl)
  · exact hr

end Call

/-! ### With room in the table -/

/-- A call that displaces finds its key in the table, or a free slot. -/
def LeavesRoom (m : MemIndex n) : IndexOp → Prop
  | .upsert e => m.Displaces e.key → m.Absent e.key → ∃ i, ¬ m.Occupied i
  | .remove _ => True

/-- Two ways that meet in a slot were as far apart before as they are there. -/
theorem probe_of_probe_add {key key' : UInt64} {a b k : ℕ}
    (h : probe n key (a + k) = probe n key' (b + k)) : probe n key a = probe n key' b := by
  have hval := congrArg Fin.val h
  rw [probe, probe, iterate_next_val, iterate_next_val, ← add_assoc, ← add_assoc] at hval
  refine Fin.ext ?_
  rw [probe, probe, iterate_next_val, iterate_next_val]
  exact Nat.ModEq.add_right_cancel' k hval

/-- One turn further on, the distance from home is at most one more. -/
theorem displacement_next_le (key : UInt64) (i : Fin (2 ^ n)) :
    displacement n key (next i) ≤ displacement n key i + 1 := by
  refine displacement_le ?_
  rw [probe_succ, probe_displacement]

/-- **The way of an entry behind the first swap is no longer than that of the call**: it would
have to pass the slot of the swap later than the call does. -/
theorem Reached.displacement_le_of_swapsAt {d t : ℕ} {other : UInt64} (hs : m.SwapsAt key d)
    (hdt : d ≤ t) (h : m.Reached other (probe n key t)) :
    displacement n other (probe n key t) ≤ t := by
  by_contra hlong
  have hback : probe n other (displacement n other (probe n key t) - t + d) = probe n key d := by
    refine probe_of_probe_add (k := t - d) ?_
    have hleft : displacement n other (probe n key t) - t + d + (t - d) =
        displacement n other (probe n key t) := by omega
    have hright : d + (t - d) = t := by omega
    rw [hleft, hright, probe_displacement]
  have hpass := h.unstopped (displacement n other (probe n key t) - t + d) (by omega)
  have hless := hs.probed_less
  rw [hback] at hpass
  omega

/-- The walk before its first swap, on turn `t`. -/
structure Before (m : MemIndex n) (key : UInt64) (t : ℕ) (s : UpsertState n) : Prop where
  table : s.table = m
  idx : s.idx = probe n key t
  dist : s.dist = t
  near : t ≤ 128
  carried : s.entryToInsert.key = key
  passes : m.Passes key t

/-- The walk after a swap, on turn `t`: the slots ahead are those of the old table, and what is
carried has come no further than the call. -/
structure After (m : MemIndex n) (key : UInt64) (t : ℕ) (s : UpsertState n) : Prop where
  idx : s.idx = probe n key t
  inside : t < 2 ^ n
  passed : ∀ j < t, m.vacant (probe n key j) ≠ true ∧ (m.entries (probe n key j)).key ≠ key
  ahead : ∀ j, t ≤ j → j < 2 ^ n → s.table.psl (probe n key j) = m.psl (probe n key j) ∧
    s.table.entries (probe n key j) = m.entries (probe n key j)
  swapped : ∃ d < t, m.SwapsAt key d
  far : displacement n s.entryToInsert.key s.idx ≤ t

section Room

variable {e : MemIndexEntry} {s s' : UpsertState n} {t : ℕ}

/-- The walk does not come around: it would have met the free slot or the key. -/
theorem lt_of_passed (hm : m.Labelled) (hroom : m.LeavesRoom (.upsert e))
    (hswap : ∃ d, m.SwapsAt e.key d)
    (hpassed : ∀ j < t, m.vacant (probe n e.key j) ≠ true ∧
      (m.entries (probe n e.key j)).key ≠ e.key) : t < 2 ^ n := by
  by_contra hround
  have hall : ∀ i, m.vacant i ≠ true ∧ (m.entries i).key ≠ e.key := fun i => by
    have hlt := (displacement_lt e.key i).trans_le (not_lt.mp hround)
    have hi := hpassed _ hlt
    rwa [probe_displacement] at hi
  obtain ⟨i, hi⟩ := hroom (displaces_iff.mpr hswap) fun i _ => (hall i).2
  exact hi (hm.occupied_of_taken (hall i).1)

/-- A turn that goes on before a swap. -/
theorem Before.step (hm : m.Labelled) (hr : AllReached (fun _ => True) m)
    (hroom : m.LeavesRoom (.upsert e)) (h : Before m e.key t s)
    (hb : (upsertLoop e.key).body s = Sum.inl s') :
    Before m e.key (t + 1) s' ∨ After m e.key (t + 1) s' := by
  obtain ⟨table, idx, dist, x⟩ := s
  obtain ⟨htable, hidx, hdist, hnear, hx, hpasses⟩ := h
  dsimp only at htable hidx hdist hx
  subst htable hidx hdist
  by_cases hv : table.vacant (probe n e.key dist) = true
  · rw [upsertBody_of_vacant hv] at hb
    cases hb
  by_cases hk : (table.entries (probe n e.key dist)).key = e.key
  · rw [upsertBody_of_key hv hk] at hb
    cases hb
  by_cases hp : table.psl (probe n e.key dist) < dist + 1
  · rw [upsertBody_of_swap hv hk hp] at hb
    split_ifs at hb
    obtain rfl := Sum.inl.inj hb
    have hswap : table.SwapsAt e.key dist := ⟨hnear, hpasses, hv, hk, hp⟩
    have hpassed : ∀ j < dist + 1, table.vacant (probe n e.key j) ≠ true ∧
        (table.entries (probe n e.key j)).key ≠ e.key := by
      intro j hj
      rcases Nat.lt_succ_iff_lt_or_eq.mp hj with hlt | rfl
      · exact ⟨(hpasses j hlt).1, (hpasses j hlt).2.1⟩
      · exact ⟨hv, hk⟩
    have hlt := lt_of_passed hm hroom ⟨dist, hswap⟩ hpassed
    have hres := hr _ (hm.occupied_of_taken hv) trivial
    have hfar := hres.displacement_le_of_swapsAt hswap le_rfl
    refine .inr ⟨(probe_succ _ _).symm, hlt, hpassed, fun j hj hj' => ?_,
      ⟨dist, Nat.lt_succ_self dist, hswap⟩, ?_⟩
    · have hne : probe n e.key j ≠ probe n e.key dist := probe_ne_of_lt hj hj'
      exact ⟨place_psl_ne hne, place_entries_ne hne⟩
    · exact (displacement_next_le _ _).trans (Nat.succ_le_succ hfar)
  · rw [upsertBody_of_walk hv hk hp] at hb
    split_ifs at hb with hfar
    obtain rfl := Sum.inl.inj hb
    exact .inl ⟨rfl, (probe_succ _ _).symm, rfl, not_lt.mp hfar, hx,
      hpasses.succ hv hk (not_lt.mp hp)⟩

/-- A turn that goes on after a swap. -/
theorem After.step (hm : m.Labelled) (hr : AllReached (fun _ => True) m)
    (hroom : m.LeavesRoom (.upsert e)) (h : After m e.key t s)
    (hb : (upsertLoop e.key).body s = Sum.inl s') : After m e.key (t + 1) s' := by
  obtain ⟨table, idx, dist, x⟩ := s
  obtain ⟨rfl, hinside, hpassed, hahead, ⟨d, hdt, hswap⟩, hfar⟩ := h
  obtain ⟨hpsl, hentry⟩ := hahead t le_rfl hinside
  dsimp only at hpsl hentry hfar hahead
  have hvacant : table.vacant (probe n e.key t) = m.vacant (probe n e.key t) := by
    rw [vacant, vacant, hpsl, hentry]
  by_cases hv : table.vacant (probe n e.key t) = true
  · rw [upsertBody_of_vacant hv] at hb
    cases hb
  by_cases hk : (table.entries (probe n e.key t)).key = e.key
  · rw [upsertBody_of_key hv hk] at hb
    cases hb
  have hpassed' : ∀ j < t + 1, m.vacant (probe n e.key j) ≠ true ∧
      (m.entries (probe n e.key j)).key ≠ e.key := by
    intro j hj
    rcases Nat.lt_succ_iff_lt_or_eq.mp hj with hlt | rfl
    · exact hpassed j hlt
    · exact ⟨hvacant ▸ hv, hentry ▸ hk⟩
  have hlt := lt_of_passed hm hroom ⟨d, hswap⟩ hpassed'
  by_cases hp : table.psl (probe n e.key t) < dist + 1
  · rw [upsertBody_of_swap hv hk hp] at hb
    split_ifs at hb
    obtain rfl := Sum.inl.inj hb
    have hres := hr _ (hm.occupied_of_taken (hvacant ▸ hv)) trivial
    have hshort := hres.displacement_le_of_swapsAt hswap hdt.le
    refine ⟨(probe_succ _ _).symm, hlt, hpassed', fun j hj hj' => ?_,
      ⟨d, hdt.trans (Nat.lt_succ_self t), hswap⟩, ?_⟩
    · have hne : probe n e.key j ≠ probe n e.key t := probe_ne_of_lt hj hj'
      obtain ⟨hpsl', hentry'⟩ := hahead j (Nat.le_of_succ_le hj) hj'
      exact ⟨(place_psl_ne hne).trans hpsl', (place_entries_ne hne).trans hentry'⟩
    · dsimp only
      rw [hentry]
      exact (displacement_next_le _ _).trans (Nat.succ_le_succ hshort)
  · rw [upsertBody_of_walk hv hk hp] at hb
    split_ifs at hb
    obtain rfl := Sum.inl.inj hb
    exact ⟨(probe_succ _ _).symm, hlt, hpassed',
      fun j hj hj' => hahead j (Nat.le_of_succ_le hj) hj',
      ⟨d, hdt.trans (Nat.lt_succ_self t), hswap⟩,
      (displacement_next_le _ _).trans (Nat.succ_le_succ hfar)⟩

/-- **With room in the table nothing is written out of its reach.** -/
theorem callInReach_of_leavesRoom {C : MemIndexEntry → Prop} (hm : m.Labelled)
    (hr : AllReached (fun _ => True) m) (hroom : m.LeavesRoom (.upsert e)) :
    CallInReach C m e := by
  intro s hs hrep _
  have hwalk : ∃ t, Before m e.key t s ∨ After m e.key t s :=
    hs.invariant (fun s => ∃ t, Before m e.key t s ∨ After m e.key t s)
      (fun a b ⟨t, ha⟩ hb => ⟨t + 1, ha.elim (fun h => h.step hm hr hroom hb)
        fun h => .inr (h.step hm hr hroom hb)⟩)
      ⟨0, .inl ⟨rfl, rfl, rfl, Nat.zero_le _, tagged_key _ _,
        fun j hj => absurd hj (Nat.not_lt_zero j)⟩⟩
  obtain ⟨t, hbefore | hafter⟩ := hwalk
  · -- the entry of the key is where a lookup of the key gets to
    have ho := hm.occupied_of_taken (hbefore.table ▸ hrep.taken)
    have hres := hr _ ho trivial
    have hkey : (m.entries s.idx).key = e.key := hbefore.table ▸ hrep.key_eq
    rw [hbefore.carried, hbefore.table, ← hkey]
    exact hres.displacement_le
  · -- and what is carried has come no further than the call
    obtain ⟨hpsl, hentry⟩ := hafter.ahead t le_rfl hafter.inside
    rw [← hafter.idx] at hpsl hentry
    have hvacant : s.table.vacant s.idx = m.vacant s.idx := by
      rw [vacant, vacant, hpsl, hentry]
    have ho := hm.occupied_of_taken (hvacant ▸ hrep.taken)
    have hres := hr _ ho trivial
    have hkey : (m.entries s.idx).key = e.key := hentry ▸ hrep.key_eq
    have hend := hres.displacement_le
    have hturn : displacement n e.key s.idx = t := by
      rw [displacement_eq hafter.idx.symm, Nat.mod_eq_of_lt hafter.inside]
    rw [hkey, hturn] at hend
    rw [hpsl]
    exact hafter.far.trans hend

end Room

/-! ### Runs -/

/-- A call of `upsert` writes no entry of the kind out of its reach. -/
def OpInReach (C : MemIndexEntry → Prop) (m : MemIndex n) : IndexOp → Prop
  | .upsert e => CallInReach C m e
  | .remove _ => True

/-- When a call keeps the entries of a kind reached; removed entries are of the kind only if
they were so before. -/
theorem allReached_applyOp_iff {C : MemIndexEntry → Prop} (hm : m.Labelled)
    (hr : AllReached C m) (hC : ∀ e : MemIndexEntry, C { e with deleted := true } → C e)
    (op : IndexOp) : AllReached C (m.applyOp op) ↔ OpInReach C m op := by
  cases op with
  | upsert e => exact (allReached_upsert_iff hm hr).2
  | remove key => exact iff_of_true (allReached_remove hm hr hC key) trivial

/-- **Every live entry is found in every state of a run exactly when** no call writes a live
entry over the entry of its key where the length of the slot is less than the distance of what
it writes from home. No call does as long as those that displace for an absent key find a free
slot. -/
theorem live_entries_found_iff (n : ℕ) (ops : List IndexOp) :
    ((indexMachine n).Always LiveFound (fresh n) ops ↔
      (indexMachine n).Meets (OpInReach Live) (fresh n) ops) ∧
    ((indexMachine n).Meets LeavesRoom (fresh n) ops →
      (indexMachine n).Meets (OpInReach Live) (fresh n) ops) := by
  have hkeeps : ∀ (m : MemIndex n) (op : IndexOp) (m' : MemIndex n), m.Labelled →
      (indexMachine n).step m op = some m' → m'.Labelled := by
    intro m op m' hm hstep
    obtain rfl := Option.some.inj hstep
    exact hm.applyOp op
  constructor
  · refine (indexMachine n).always_iff_meets hkeeps ?_ ?_ (fresh_labelled n)
      ((fresh_labelled n).liveFound_iff_allReached.mpr (fresh_allReached Live n))
    · intro m op m' hm hfound hstep
      obtain rfl := Option.some.inj hstep
      rw [(hm.applyOp op).liveFound_iff_allReached]
      exact allReached_applyOp_iff hm (hm.liveFound_iff_allReached.mp hfound)
        (fun e he => Bool.noConfusion he) op
    · exact fun m op hstep => nomatch hstep
  · refine (indexMachine n).meets_of_invariant
      (fun m => m.Labelled ∧ AllReached (fun _ => True) m) ?_ ?_
      ⟨fresh_labelled n, fresh_allReached _ n⟩
    · rintro m op m' ⟨hm, hr⟩ hroom hstep
      obtain rfl := Option.some.inj hstep
      refine ⟨hm.applyOp op, (allReached_applyOp_iff hm hr (fun _ _ => trivial) op).mpr ?_⟩
      cases op with
      | upsert e => exact callInReach_of_leavesRoom hm hr hroom
      | remove key => trivial
    · rintro m op ⟨hm, hr⟩ hroom
      cases op with
      | upsert e => exact callInReach_of_leavesRoom hm hr hroom
      | remove key => trivial

/-! ### A full table -/

/-- A table of capacity 4 written out slot by slot. -/
def ofFour (slots : List (MemIndexEntry × ℕ)) (size : ℕ) : MemIndex 2 where
  entries := fun i => (slots.getD i (MemIndexEntry.zero, 0)).1
  psl := fun i => (slots.getD i (MemIndexEntry.zero, 0)).2
  size := size
  globalSequence := 0

/-- The tables after keys 1, 2, 3 and 5. -/
def fourAfter1 : MemIndex 2 := ofFour [(sampleEntry 1 2, 1)] 1

def fourAfter2 : MemIndex 2 :=
  ofFour [(sampleEntry 1 2, 1), (.zero, 0), (.zero, 0), (sampleEntry 2 3, 1)] 2

def fourAfter3 : MemIndex 2 :=
  ofFour [(sampleEntry 1 2, 1), (.zero, 0), (sampleEntry 3 4, 1), (sampleEntry 2 3, 1)] 3

def fourAfter5 : MemIndex 2 :=
  ofFour [(sampleEntry 1 2, 1), (sampleEntry 5 5, 2), (sampleEntry 3 4, 1), (sampleEntry 2 3, 1)] 4

/-- And after key 4, which is put down in slot 2 and overwritten by key 5 when the walk comes
round to it. -/
def fourAfter4 : MemIndex 2 :=
  ofFour [(sampleEntry 2 3, 3), (sampleEntry 1 2, 3), (sampleEntry 5 5, 1), (sampleEntry 3 4, 3)] 4

theorem step_ofFour {m m' : MemIndex 2} {key : UInt64} {sequence : UInt32}
    (he : ∀ i, (m.upsert key (sampleEntry key sequence)).1.entries i = m'.entries i)
    (hp : ∀ i, (m.upsert key (sampleEntry key sequence)).1.psl i = m'.psl i)
    (hs : (m.upsert key (sampleEntry key sequence)).1.size = m'.size)
    (hg : (m.upsert key (sampleEntry key sequence)).1.globalSequence = m'.globalSequence) :
    (indexMachine 2).step m (.upsert (sampleEntry key sequence)) = some m' := by
  refine congrArg some ?_
  rw [applyOp, sampleEntry_key]
  exact eq_of_slots he hp hs hg

/-- **A full table hides an entry**: four calls fill a table of capacity 4, and a fifth, with an
older sequence, returns `true`; key 5 is then live in slot 2, and a lookup does not find it. -/
theorem full_table_hides_entry :
    ∃ m : MemIndex 2, (indexMachine 2).run (fresh 2)
        [.upsert (sampleEntry 1 2), .upsert (sampleEntry 2 3), .upsert (sampleEntry 3 4),
          .upsert (sampleEntry 5 5)] = some m ∧
      (m.upsert 4 (sampleEntry 4 1)).2 = true ∧
      (m.upsert 4 (sampleEntry 4 1)).1.Occupied 2 ∧
      ((m.upsert 4 (sampleEntry 4 1)).1.entries 2).deleted = false ∧
      ((m.upsert 4 (sampleEntry 4 1)).1.entries 2).key = 5 ∧
      (m.upsert 4 (sampleEntry 4 1)).1.find 5 = none := by
  have h1 : (indexMachine 2).step (fresh 2) (.upsert (sampleEntry 1 2)) = some fourAfter1 :=
    step_ofFour (by decide +kernel) (by decide +kernel) (by decide +kernel) (by decide +kernel)
  have h2 : (indexMachine 2).step fourAfter1 (.upsert (sampleEntry 2 3)) = some fourAfter2 :=
    step_ofFour (by decide +kernel) (by decide +kernel) (by decide +kernel) (by decide +kernel)
  have h3 : (indexMachine 2).step fourAfter2 (.upsert (sampleEntry 3 4)) = some fourAfter3 :=
    step_ofFour (by decide +kernel) (by decide +kernel) (by decide +kernel) (by decide +kernel)
  have h5 : (indexMachine 2).step fourAfter3 (.upsert (sampleEntry 5 5)) = some fourAfter5 :=
    step_ofFour (by decide +kernel) (by decide +kernel) (by decide +kernel) (by decide +kernel)
  have h4 : fourAfter5.upsert 4 (sampleEntry 4 1) = (fourAfter4, true) :=
    Prod.ext (eq_of_slots (by decide +kernel) (by decide +kernel) (by decide +kernel)
      (by decide +kernel)) (by decide +kernel)
  refine ⟨fourAfter5, ?_, ?_⟩
  · simp only [Machine.run, h1, h2, h3, h5, Option.bind_some]
  · rw [h4]
    exact ⟨rfl, by decide +kernel, by decide +kernel, by decide +kernel, by decide +kernel⟩

end MemIndex

end SpdkKv
