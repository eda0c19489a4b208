import SpdkKv.IndexMap

/-!
# Writes that Settle

Writes reach the index in an order that is not the order of their sequences: log records
during recovery, completions of blob IO while the engine runs. A put goes through the
sequence comparison of `upsert`; a tombstone removes whatever entry is there. `Arrivals`
describes such writes by their keys, sequences and kinds, whatever they are.

## Main results

* `sequenceNewer_iff`: within a window the wrap-around comparison is that of the distances.
* `Arrivals.Valid.shows_iff`: **when the newest write of every key decides** — exactly when,
  for the newest put of a key, a tombstone arrives after it if and only if a tombstone is
  newer than it.
-/

namespace SpdkKv

universe u

/-! ### Windows of sequences -/

/-- Within a window shorter than `2 ^ 31` the wrap-around comparison of sequences is the
comparison of their distances from the start of the window. -/
theorem sequenceNewer_iff {base a b : UInt32} (ha : (a - base).toNat < 2 ^ 31)
    (hb : (b - base).toNat < 2 ^ 31) :
    MemIndex.sequenceNewer a b = true ↔ (b - base).toNat < (a - base).toNat := by
  have hsub : a - b = (a - base) - (b - base) := by grind
  have hnat := UInt32.toNat_sub (a - base) (b - base)
  rw [← hsub] at hnat
  simp only [MemIndex.sequenceNewer, Bool.and_eq_true, decide_eq_true_eq, hnat]
  generalize (a - base).toNat = x at *
  generalize (b - base).toNat = y at *
  omega

/-- Equal distances are equal sequences. -/
theorem sequence_eq_of_distance {base a b : UInt32} :
    (a - base).toNat = (b - base).toNat ↔ a = b := by
  constructor
  · intro h
    have : a - base = b - base := UInt32.toNat_inj.mp h
    grind
  · intro h
    rw [h]

/-! ### Arrivals -/

/-- Writes that reach the index, with the entry that a put brings. -/
structure Arrivals (ι : Type u) where
  key : ι → UInt64
  sequence : ι → UInt32
  tomb : ι → Bool
  entry : ι → MemIndexEntry

namespace Arrivals

variable {ι : Type u} (A : Arrivals ι)

/-- The call to the index. -/
def call (i : ι) : IndexOp := if A.tomb i then .remove (A.key i) else .upsert (A.entry i)

open NewestWins in
/-- What a write commands to the register of its key. -/
def cmd (i : ι) : Cmd MemIndexEntry :=
  if A.tomb i then .del else .put (MemIndex.tagged (A.entry i).key (A.entry i))

/-- The rank of a write: the distance of its sequence from the start of the window. -/
def rank (base : UInt64 → UInt32) (i : ι) : ℕ := (A.sequence i - base (A.key i)).toNat

/-- The writes to a key. -/
def on (l : List ι) (key : UInt64) : List ι := l.filter fun i => A.key i = key

/-- The write is one of the list and none to its key is newer. -/
def IsNewest (l : List ι) (w : ι) : Prop :=
  w ∈ l ∧ ∀ i ∈ l, A.key i = A.key w → ¬ MemIndex.sequenceNewer (A.sequence i) (A.sequence w)

/-- The write is a put of the list and no put to its key is newer. -/
def IsNewestPut (l : List ι) (p : ι) : Prop :=
  p ∈ l ∧ A.tomb p = false ∧ ∀ i ∈ l, A.key i = A.key p → A.tomb i = false →
    ¬ MemIndex.sequenceNewer (A.sequence i) (A.sequence p)

/-- A tombstone of the key arrives after the put, or after a copy of it. -/
def TombAfter (l : List ι) (p : ι) : Prop :=
  ∃ i j, [i, j].Sublist l ∧ A.key i = A.key p ∧ A.sequence i = A.sequence p ∧
    A.tomb i = false ∧ A.key j = A.key p ∧ A.tomb j = true

/-- A tombstone of the key is newer than the put. -/
def TombNewer (l : List ι) (p : ι) : Prop :=
  ∃ j ∈ l, A.key j = A.key p ∧ A.tomb j = true ∧
    MemIndex.sequenceNewer (A.sequence j) (A.sequence p)

/-- The index shows the newest write of every key: nothing for a tombstone, the entry of the
put, or of a copy of it, otherwise. -/
def Shows {n : ℕ} (m : MemIndex n) (l : List ι) : Prop :=
  ∀ w, A.IsNewest l w →
    if A.tomb w then m.findEntry (A.key w) = none
    else ∃ q ∈ l, A.key q = A.key w ∧ A.sequence q = A.sequence w ∧ A.tomb q = false ∧
      m.findEntry (A.key w) = some (MemIndex.tagged (A.entry q).key (A.entry q))

/-- The writes bring their own entries, lie within a window, are newer than what is there,
and are copies of each other if they agree in key and sequence. -/
structure Valid (l : List ι) (base : UInt64 → UInt32) (start : UInt64 → Option MemIndexEntry) :
    Prop where
  entry_eq : ∀ i ∈ l, A.tomb i = false → (A.entry i).key = A.key i ∧
    (A.entry i).sequence = A.sequence i ∧ (A.entry i).deleted = false
  window : ∀ i ∈ l, (A.sequence i - base (A.key i)).toNat < 2 ^ 31
  older : ∀ i ∈ l, ∀ e, start (A.key i) = some e →
    MemIndex.sequenceNewer (A.sequence i) e.sequence
  copies : ∀ i ∈ l, ∀ j ∈ l, A.key i = A.key j → A.sequence i = A.sequence j →
    A.tomb i = A.tomb j

variable {A}

theorem mem_on {l : List ι} {key : UInt64} {i : ι} :
    i ∈ A.on l key ↔ i ∈ l ∧ A.key i = key := by
  rw [on, List.mem_filter, decide_eq_true_eq]

theorem cmd_eq_del {i : ι} : A.cmd i = .del ↔ A.tomb i = true := by
  rw [cmd]
  split_ifs with h
  · exact ⟨fun _ => h, fun _ => rfl⟩
  · exact ⟨fun h' => (by cases h'), fun h' => absurd h' h⟩

theorem cmd_eq_put {i : ι} {e : MemIndexEntry} :
    A.cmd i = .put e ↔
      A.tomb i = false ∧ MemIndex.tagged (A.entry i).key (A.entry i) = e := by
  rw [cmd]
  split_ifs with h
  · exact ⟨fun h' => (by cases h'), fun h' => absurd (h ▸ h'.1) (by decide)⟩
  · rw [NewestWins.Cmd.put.injEq]
    exact ⟨fun h' => ⟨Bool.eq_false_iff.mpr h, h'⟩, fun h' => h'.2⟩

namespace Valid

variable {l : List ι} {base : UInt64 → UInt32} {start : UInt64 → Option MemIndexEntry}
  (hv : A.Valid l base start)
include hv

/-- The calls to a key are what its writes command. -/
theorem filterMap_cmdFor (key : UInt64) :
    (l.map A.call).filterMap (IndexOp.cmdFor key) = (A.on l key).map A.cmd := by
  have hentry := hv.entry_eq
  clear hv
  induction l with
  | nil => rfl
  | cons i l ih =>
      have hcmd : (A.call i).cmdFor key = if A.key i = key then some (A.cmd i) else none := by
        rw [call, cmd]
        cases ht : A.tomb i with
        | true => rw [if_pos rfl, if_pos rfl, IndexOp.cmdFor]
        | false =>
            rw [if_neg Bool.false_ne_true, if_neg Bool.false_ne_true, IndexOp.cmdFor,
              (hentry i List.mem_cons_self ht).1]
            split_ifs with hk
            · rw [hk]
            · rfl
      rw [List.map_cons, List.filterMap_cons, hcmd,
        ih fun j hj => hentry j (List.mem_cons_of_mem _ hj), on, on, List.filter_cons]
      by_cases hk : A.key i = key
      · simp only [if_pos hk, decide_eq_true hk, if_true, List.map_cons]
      · simp only [if_neg hk, decide_eq_false hk, if_false, Bool.false_eq_true]

/-- Among the writes to a key the comparison of sequences is that of the ranks. -/
theorem newer_iff {i j : ι} (hi : i ∈ l) (hj : j ∈ l) (hk : A.key i = A.key j) :
    MemIndex.sequenceNewer (A.sequence i) (A.sequence j) = true ↔
      A.rank base j < A.rank base i := by
  have := sequenceNewer_iff (hv.window i hi) (hk ▸ hv.window j hj)
  rw [this, rank, rank, hk]

/-- The writes to a key are ranked by their sequences. -/
theorem ranked (key : UInt64) :
    newestEntry.Ranked A.cmd (A.rank base) (A.on l key)
      (start key) where
  newer_iff := by
    intro i hi j hj a b ha hb
    obtain ⟨hi, hik⟩ := mem_on.mp hi
    obtain ⟨hj, hjk⟩ := mem_on.mp hj
    obtain ⟨hti, rfl⟩ := cmd_eq_put.mp ha
    obtain ⟨htj, rfl⟩ := cmd_eq_put.mp hb
    simp only [newestEntry, MemIndex.tagged_sequence]
    rw [(hv.entry_eq i hi hti).2.1, (hv.entry_eq j hj htj).2.1]
    exact hv.newer_iff hi hj (hik.trans hjk.symm)
  newer_init := by
    intro i hi a b ha hb
    obtain ⟨hi, hik⟩ := mem_on.mp hi
    obtain ⟨ht, rfl⟩ := cmd_eq_put.mp ha
    simp only [newestEntry, MemIndex.tagged_sequence]
    rw [(hv.entry_eq i hi ht).2.1]
    exact hv.older i hi b (hik ▸ hb)
  alive := by
    intro i hi a ha
    obtain ⟨hi, -⟩ := mem_on.mp hi
    obtain ⟨ht, rfl⟩ := cmd_eq_put.mp ha
    simp only [newestEntry, MemIndex.tagged_deleted]
    exact (hv.entry_eq i hi ht).2.2

/-- A write of the largest rank is a newest one. -/
theorem isNewest_iff {w : ι} (hw : w ∈ l) :
    (∀ i ∈ A.on l (A.key w), A.rank base i ≤ A.rank base w) ↔ A.IsNewest l w := by
  constructor
  · intro h
    refine ⟨hw, fun i hi hk hnew => ?_⟩
    exact absurd ((hv.newer_iff hi hw hk).mp hnew) (not_lt.mpr (h i (mem_on.mpr ⟨hi, hk⟩)))
  · rintro ⟨-, h⟩ i hi
    obtain ⟨hi, hk⟩ := mem_on.mp hi
    exact not_lt.mp (mt (hv.newer_iff hi hw hk).mpr (h i hi hk))

/-- A newest `put` of the register of a key is a newest put. -/
theorem isNewestPut_iff {p : ι} (hp : p ∈ l) :
    NewestWins.IsNewestPut A.cmd (A.rank base)
      (A.on l (A.key p)) p ↔ A.IsNewestPut l p := by
  constructor
  · rintro ⟨-, ⟨a, ha⟩, hmax⟩
    refine ⟨hp, (cmd_eq_put.mp ha).1, fun i hi hk ht hnew => ?_⟩
    exact absurd ((hv.newer_iff hi hp hk).mp hnew)
      (not_lt.mpr (hmax i (mem_on.mpr ⟨hi, hk⟩) _ (cmd_eq_put.mpr ⟨ht, rfl⟩)))
  · rintro ⟨-, ht, hmax⟩
    refine ⟨mem_on.mpr ⟨hp, rfl⟩, ⟨_, cmd_eq_put.mpr ⟨ht, rfl⟩⟩, fun i hi b hb => ?_⟩
    obtain ⟨hi, hk⟩ := mem_on.mp hi
    exact not_lt.mp (mt (hv.newer_iff hi hp hk).mpr (hmax i hi hk (cmd_eq_put.mp hb).1))

omit hv in
/-- A `del` after a `put` of the rank of `p` is a tombstone after a copy of it. -/
theorem delAfter_iff (base : UInt64 → UInt32) (l : List ι) (p : ι) :
    NewestWins.DelAfter A.cmd (A.rank base) (A.on l (A.key p)) (A.rank base p) ↔
      A.TombAfter l p := by
  constructor
  · rintro ⟨i, j, a, hsub, hi, hr, hj⟩
    obtain ⟨-, hik⟩ := mem_on.mp (hsub.subset List.mem_cons_self)
    obtain ⟨-, hjk⟩ := mem_on.mp (hsub.subset (show j ∈ [i, j] by simp))
    rw [rank, rank, hik] at hr
    exact ⟨i, j, hsub.trans List.filter_sublist, hik, sequence_eq_of_distance.mp hr,
      (cmd_eq_put.mp hi).1, hjk, cmd_eq_del.mp hj⟩
  · rintro ⟨i, j, hsub, hik, his, hit, hjk, hjt⟩
    refine ⟨i, j, _, ?_, cmd_eq_put.mpr ⟨hit, rfl⟩, ?_, cmd_eq_del.mpr hjt⟩
    · have := hsub.filter (fun k => decide (A.key k = A.key p))
      simpa [on, hik, hjk] using this
    · rw [rank, rank, hik, his]

/-- A `del` of a larger rank is a newer tombstone. -/
theorem delNewer_iff {p : ι} (hp : p ∈ l) :
    (∃ j ∈ A.on l (A.key p), A.cmd j = .del ∧ A.rank base p < A.rank base j) ↔
      A.TombNewer l p := by
  constructor
  · rintro ⟨j, hj, hd, hlt⟩
    obtain ⟨hj, hk⟩ := mem_on.mp hj
    exact ⟨j, hj, hk, cmd_eq_del.mp hd, (hv.newer_iff hj hp hk).mpr hlt⟩
  · rintro ⟨j, hj, hk, ht, hnew⟩
    exact ⟨j, mem_on.mpr ⟨hj, hk⟩, cmd_eq_del.mpr ht, (hv.newer_iff hj hp hk).mp hnew⟩

/-- The register of a key settles exactly when a lookup shows the newest write. -/
theorem settles_iff {n : ℕ} {m : MemIndex n} (hm : m.Wf) {key : UInt64}
    (hst : m.stored key = newestEntry.run A.cmd (A.on l key) (start key)) :
    newestEntry.Settles A.cmd (A.rank base) (A.on l key)
        (newestEntry.run A.cmd (A.on l key) (start key)) ↔
      ∀ w, A.IsNewest l w → A.key w = key →
        if A.tomb w then m.findEntry key = none
        else ∃ q ∈ l, A.key q = key ∧ A.sequence q = A.sequence w ∧ A.tomb q = false ∧
          m.findEntry key = some (MemIndex.tagged (A.entry q).key (A.entry q)) := by
  have hfind : newestEntry.look (newestEntry.run A.cmd (A.on l key) (start key)) =
      m.findEntry key := by
    rw [hm.findEntry_eq, ← hst]
    rfl
  constructor
  · rintro hs w hw rfl
    have h := hs w (mem_on.mpr ⟨hw.1, rfl⟩) ((hv.isNewest_iff hw.1).mpr hw)
    rw [hfind] at h
    split_ifs with ht
    · rwa [cmd_eq_del.mpr ht] at h
    · rw [cmd_eq_put.mpr ⟨Bool.eq_false_iff.mpr ht, rfl⟩] at h
      obtain ⟨q, hq, b, hb, hr, hlook⟩ := h
      obtain ⟨hq, hqk⟩ := mem_on.mp hq
      obtain ⟨hqt, rfl⟩ := cmd_eq_put.mp hb
      rw [rank, rank, hqk] at hr
      exact ⟨q, hq, hqk, sequence_eq_of_distance.mp hr, hqt, hlook⟩
  · intro h w hw hmax
    obtain ⟨hwl, rfl⟩ := mem_on.mp hw
    have hnewest := (hv.isNewest_iff hwl).mp hmax
    have hlook := h w hnewest rfl
    cases hc : A.cmd w with
    | del =>
        rw [if_pos (cmd_eq_del.mp hc)] at hlook
        exact hfind.trans hlook
    | put a =>
        have ht := (cmd_eq_put.mp hc).1
        rw [if_neg (ht ▸ Bool.false_ne_true)] at hlook
        obtain ⟨q, hq, hqk, hqs, hqt, he⟩ := hlook
        refine ⟨q, mem_on.mpr ⟨hq, hqk⟩, _, cmd_eq_put.mpr ⟨hqt, rfl⟩, ?_, hfind.trans he⟩
        rw [rank, rank, hqk, hqs]

/-- If the newest write of a key is a put and a lookup finds anything, it finds the entry of
that put. -/
theorem exists_put_of_findEntry {n : ℕ} {m : MemIndex n} (hm : m.Wf)
    (hst : ∀ key, m.stored key = newestEntry.run A.cmd (A.on l key) (start key)) {w : ι}
    (hw : A.IsNewest l w) (ht : A.tomb w = false) (hlive : m.findEntry (A.key w) ≠ none) :
    ∃ q ∈ l, A.key q = A.key w ∧ A.sequence q = A.sequence w ∧ A.tomb q = false ∧
      m.findEntry (A.key w) = some (MemIndex.tagged (A.entry q).key (A.entry q)) := by
  have hfind : newestEntry.look (newestEntry.run A.cmd (A.on l (A.key w)) (start (A.key w))) =
      m.findEntry (A.key w) := by
    rw [hm.findEntry_eq, ← hst]
    rfl
  have hput := (hv.isNewestPut_iff hw.1).mpr ⟨hw.1, ht, fun i hi hk _ => hw.2 i hi hk⟩
  obtain ⟨hdead, hread⟩ := NewestWins.look_run_of_newestPut (hv.ranked (A.key w)) hput
  rw [hfind] at hdead hread
  obtain ⟨q, hq, b, hb, hr, hlook⟩ := hread fun hd => hlive (hdead hd)
  obtain ⟨hq, hqk⟩ := mem_on.mp hq
  obtain ⟨hqt, rfl⟩ := cmd_eq_put.mp hb
  rw [rank, rank, hqk] at hr
  exact ⟨q, hq, hqk, sequence_eq_of_distance.mp hr, hqt, hlook⟩

/-- **When the newest write of every key decides.** -/
theorem shows_iff {n : ℕ} {m : MemIndex n} (hm : m.Wf)
    (hst : ∀ key, m.stored key = newestEntry.run A.cmd (A.on l key) (start key)) :
    A.Shows m l ↔ ∀ p, A.IsNewestPut l p → (A.TombAfter l p ↔ A.TombNewer l p) := by
  have hkind (key : UInt64) : ∀ i ∈ A.on l key, ∀ j ∈ A.on l key,
      A.rank base i = A.rank base j → A.cmd i = .del → A.cmd j = .del := by
    intro i hi j hj hr hd
    obtain ⟨hi, hik⟩ := mem_on.mp hi
    obtain ⟨hj, hjk⟩ := mem_on.mp hj
    have hk := hik.trans hjk.symm
    rw [rank, rank, hk] at hr
    rw [cmd_eq_del] at hd ⊢
    rw [← hv.copies i hi j hj hk (sequence_eq_of_distance.mp hr), hd]
  have hkey (key : UInt64) := (hv.settles_iff hm (hst key)).symm.trans
    (NewestWins.settles_iff (hv.ranked key) (hkind key))
  constructor
  · intro h p hp
    rw [← delAfter_iff base l p, ← hv.delNewer_iff hp.1]
    exact (hkey (A.key p)).mp (fun w hw hwk => hwk ▸ h w hw) p
      ((hv.isNewestPut_iff hp.1).mpr hp)
  · intro h w hw
    refine (hkey (A.key w)).mpr (fun p hp => ?_) w hw rfl
    obtain ⟨hpl, hpk⟩ := mem_on.mp hp.1
    rw [← hpk] at hp ⊢
    rw [delAfter_iff base l p, hv.delNewer_iff hpl]
    exact h p ((hv.isNewestPut_iff hpl).mp hp)

end Valid

end Arrivals

end SpdkKv
