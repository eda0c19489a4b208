import Mathlib.Data.Nat.ModEq
import SpdkKv.IndexMap
import SpdkKv.Lib.Turns

/-!
# The Vector Lookup

`find_avx2` of `mem_index.h` looks at aligned groups of four slots: it returns the first
slot of the group that holds a live entry of the key, gives up when no stored length of the
group reaches the distance counted from the beginning of the group, and otherwise goes on
with the next group until it is back at the home slot. The distance begins anew with every
group, and from the second group on the walk is at the first slot of a group, so that a home
slot inside a group is never met again.

## Main results

* `visitsOnce_iff`: **the loop ends, and visits each group at most once, exactly when** the
  home slot begins a group or one of the groups stops the walk.
* `findAvx2_eq_find_iff`: **what the loop returns is what `find` returns exactly when** every
  group in front of the one that holds the live entry lets the walk go on.
* `findAvx2_loops`, `findAvx2_misses`: lookups that do not end and that miss their entry.
-/

namespace SpdkKv

namespace MemIndex

variable {n : ℕ}

/-! ### The loop -/

/-- `idx & ~3ULL`. -/
def alignedIdx (idx : ℕ) : ℕ := idx / 4 * 4

/-- The slots of the group that begins at `aligned`. -/
def groupSlots (n aligned : ℕ) : List (Fin (2 ^ n)) :=
  (List.range 4).filterMap fun i =>
    if h : aligned + i < 2 ^ n then some ⟨aligned + i, h⟩ else none

/-- The first slot of the group whose fingerprint and key match and that is not deleted. -/
def groupMatch (m : MemIndex n) (key : UInt64) (aligned : ℕ) : Option (Fin (2 ^ n)) :=
  (groupSlots n aligned).find? fun i => (m.entries i).tag = HashUtil.tag key ∧
    (m.entries i).key = key ∧ ¬ (m.entries i).deleted

/-- Whether a stored length of the group lets the walk go on. -/
def shouldContinue (m : MemIndex n) (idx : Fin (2 ^ n)) : Bool :=
  let aligned := alignedIdx idx
  let dist := idx - aligned + 1
  (groupSlots n aligned).any fun i => dist + (i - aligned) ≤ m.psl i

/-- One turn of the loop of `find_avx2`. -/
def avx2Body (m : MemIndex n) (key : UInt64) (idx : Fin (2 ^ n)) :
    Fin (2 ^ n) ⊕ Option (Fin (2 ^ n)) :=
  match m.groupMatch key (alignedIdx idx) with
  | some i => Sum.inr (some i)
  | none =>
      if m.shouldContinue idx = false then
        Sum.inr none
      else
        let idx' := slotOf n (alignedIdx idx + 4)
        -- Full-circle check
        if idx' = home n key then Sum.inr none else Sum.inl idx'

/-- The slot with which a turn begins. -/
def avx2At (m : MemIndex n) (key : UInt64) (k : ℕ) : Option (Fin (2 ^ n)) :=
  Turns.stateAt (m.avx2Body key) (home n key) k

/-- `find_avx2` returns `r`. -/
def FindAvx2 (m : MemIndex n) (key : UInt64) (r : Option (Fin (2 ^ n))) : Prop :=
  Turns.Returns (m.avx2Body key) (home n key) r

/-! ### The groups -/

/-- The group of a slot. -/
def groupOf (i : Fin (2 ^ n)) : ℕ := i / 4

/-- The number of groups. -/
def groupCount (n : ℕ) : ℕ := (2 ^ n + 3) / 4

theorem mem_groupSlots {aligned : ℕ} {i : Fin (2 ^ n)} :
    i ∈ groupSlots n aligned ↔ aligned ≤ i ∧ i < aligned + 4 := by
  rw [groupSlots, List.mem_filterMap]
  constructor
  · rintro ⟨d, hd, h⟩
    split_ifs at h with hlt
    obtain rfl := Option.some.inj h
    have := List.mem_range.mp hd
    dsimp only
    omega
  · rintro ⟨h1, h2⟩
    refine ⟨i - aligned, List.mem_range.mpr (by omega), ?_⟩
    have hi : aligned + (i.val - aligned) = i := by omega
    rw [dif_pos (by rw [hi]; exact i.isLt)]
    exact congrArg some (Fin.ext hi)

/-- A group consists of the slots with its number. -/
theorem mem_groupSlots_alignedIdx {i idx : Fin (2 ^ n)} :
    i ∈ groupSlots n (alignedIdx idx) ↔ groupOf i = groupOf idx := by
  rw [mem_groupSlots, alignedIdx, groupOf, groupOf]
  omega

/-- A matching slot lies in the group and holds a live entry of the key. -/
theorem of_groupMatch {m : MemIndex n} {key : UInt64} {idx i : Fin (2 ^ n)}
    (h : m.groupMatch key (alignedIdx idx) = some i) :
    groupOf i = groupOf idx ∧ (m.entries i).tag = HashUtil.tag key ∧
      (m.entries i).key = key ∧ (m.entries i).deleted = false := by
  rw [groupMatch, List.find?_eq_some_iff_append] at h
  obtain ⟨hmatch, l, l', hl, -⟩ := h
  have hmem : i ∈ groupSlots n (alignedIdx idx) := by
    rw [hl]
    exact List.mem_append_right _ List.mem_cons_self
  simp only [decide_eq_true_eq, Bool.not_eq_true] at hmatch
  exact ⟨mem_groupSlots_alignedIdx.mp hmem, hmatch⟩

/-- A group with a live entry of the key has a matching slot. -/
theorem groupMatch_ne_none {m : MemIndex n} {key : UInt64} {idx i : Fin (2 ^ n)}
    (hi : groupOf i = groupOf idx) (ht : (m.entries i).tag = HashUtil.tag key)
    (hk : (m.entries i).key = key) (hd : (m.entries i).deleted = false) :
    m.groupMatch key (alignedIdx idx) ≠ none := by
  rw [groupMatch, Ne, List.find?_eq_none]
  intro h
  have := h i (mem_groupSlots_alignedIdx.mpr hi)
  simp [ht, hk, hd] at this

/-! ### The walk -/

/-- The slot with which the walk begins its turn with the given number. -/
def visit (n : ℕ) (key : UInt64) : ℕ → Fin (2 ^ n)
  | 0 => home n key
  | k + 1 => slotOf n (alignedIdx (visit n key k) + 4)

/-- Two powers of two, by the number of groups. -/
theorem two_pow_eq (n : ℕ) : 2 ^ n = 4 * groupCount n ∨ groupCount n = 1 ∧ 2 ^ n < 4 := by
  match n with
  | 0 => exact Or.inr ⟨rfl, by decide⟩
  | 1 => exact Or.inr ⟨rfl, by decide⟩
  | n + 2 =>
      refine Or.inl ?_
      have h : 2 ^ (n + 2) = 2 ^ n * 4 := pow_add 2 n 2
      rw [groupCount, h]
      omega

theorem groupCount_pos (n : ℕ) : 0 < groupCount n := by
  have := Nat.two_pow_pos n
  rw [groupCount]
  omega

theorem groupOf_lt (i : Fin (2 ^ n)) : groupOf i < groupCount n := by
  have := i.isLt
  rw [groupOf, groupCount]
  omega

/-- From the second turn on the walk begins at the first slot of the next group. -/
theorem visit_succ_val (n : ℕ) (key : UInt64) (k : ℕ) :
    (visit n key (k + 1)).val = (groupOf (visit n key k) + 1) % groupCount n * 4 := by
  rw [visit, slotOf_val, alignedIdx, ← groupOf]
  rcases two_pow_eq n with h | ⟨h, hlt⟩
  · rw [h, ← Nat.succ_mul, Nat.mul_comm 4, Nat.mul_mod_mul_right]
  · have hg := groupOf_lt (visit n key k)
    rw [h] at hg ⊢
    obtain hzero : groupOf (visit n key k) = 0 := by omega
    have hpow : 2 ^ n ∣ 4 := by
      match n with
      | 0 => exact ⟨4, rfl⟩
      | 1 => exact ⟨2, rfl⟩
      | n + 2 =>
          have : 2 ^ 2 ≤ 2 ^ (n + 2) :=
            Nat.pow_le_pow_right (Nat.succ_pos 1) (Nat.le_add_left 2 n)
          omega
    rw [hzero, Nat.mod_one, Nat.zero_mul, Nat.zero_add]
    exact Nat.mod_eq_zero_of_dvd hpow

/-- The groups are visited in turn. -/
theorem groupOf_visit (n : ℕ) (key : UInt64) (k : ℕ) :
    groupOf (visit n key k) = (groupOf (home n key) + k) % groupCount n := by
  induction k with
  | zero => rw [visit, Nat.add_zero, Nat.mod_eq_of_lt (groupOf_lt (home n key))]
  | succ k ih =>
      rw [groupOf, visit_succ_val, Nat.mul_div_cancel _ (Nat.succ_pos 3), ih, Nat.mod_add_mod,
        Nat.add_assoc]

/-- The walk comes back to the home slot only if that begins a group, and then after a full
circle. -/
theorem visit_succ_eq_home_iff {n : ℕ} {key : UInt64} {k : ℕ} :
    visit n key (k + 1) = home n key ↔
      (home n key).val % 4 = 0 ∧ groupCount n ∣ k + 1 := by
  have hg := groupOf_visit n key (k + 1)
  have hlt := groupOf_lt (home n key)
  have hdvd : (groupOf (home n key) + (k + 1)) % groupCount n = groupOf (home n key) ↔
      groupCount n ∣ k + 1 := by
    rw [← Nat.modEq_zero_iff_dvd]
    constructor
    · intro h
      refine Nat.ModEq.add_left_cancel' (groupOf (home n key)) ?_
      rw [Nat.ModEq, h, Nat.add_zero, Nat.mod_eq_of_lt hlt]
    · intro h
      have hadd := Nat.ModEq.add_left (groupOf (home n key)) h
      rw [Nat.ModEq] at hadd
      rw [hadd, Nat.add_zero, Nat.mod_eq_of_lt hlt]
  have hval := visit_succ_val n key k
  rw [← hdvd, ← hg, Fin.ext_iff]
  rw [groupOf, groupOf]
  constructor
  · intro h
    rw [h] at hval ⊢
    exact ⟨by rw [hval, Nat.mul_mod_left], rfl⟩
  · rintro ⟨h1, h2⟩
    have h3 : (visit n key (k + 1)).val % 4 = 0 := by rw [hval, Nat.mul_mod_left]
    omega

/-- The group of the turn neither holds a match nor stops the walk. -/
def Goes (m : MemIndex n) (key : UInt64) (k : ℕ) : Prop :=
  m.groupMatch key (alignedIdx (visit n key k)) = none ∧
    m.shouldContinue (visit n key k) = true

instance (m : MemIndex n) (key : UInt64) (k : ℕ) : Decidable (m.Goes key k) :=
  inferInstanceAs (Decidable (_ ∧ _))

/-- A turn goes round again when its group lets it and the next slot is not the home slot. -/
theorem avx2Body_visit (m : MemIndex n) (key : UInt64) (k : ℕ) :
    m.avx2Body key (visit n key k) =
      if m.Goes key k ∧ visit n key (k + 1) ≠ home n key then Sum.inl (visit n key (k + 1))
      else Sum.inr (m.groupMatch key (alignedIdx (visit n key k))) := by
  by_cases hgo : m.Goes key k ∧ visit n key (k + 1) ≠ home n key
  · obtain ⟨⟨hmatch, hcont⟩, hne⟩ := hgo
    rw [if_pos ⟨⟨hmatch, hcont⟩, hne⟩, avx2Body, hmatch, hcont]
    exact (if_neg (fun h => Bool.false_ne_true h.symm)).trans (if_neg hne)
  · rw [if_neg hgo, avx2Body]
    split
    · next i hmatch => rw [hmatch]
    · next hmatch =>
        rw [hmatch]
        split_ifs with hcont
        · rfl
        · refine if_pos ?_
          by_contra hhome
          exact hgo ⟨⟨hmatch, Bool.eq_true_of_not_eq_false hcont⟩, hhome⟩

/-- The walk visits its slots in turn. -/
theorem avx2At_eq_some {m : MemIndex n} {key : UInt64} {k : ℕ} {idx : Fin (2 ^ n)}
    (h : m.avx2At key k = some idx) : idx = visit n key k := by
  induction k generalizing idx with
  | zero => exact (Option.some.inj h).symm
  | succ k ih =>
      obtain ⟨t, ht, hb⟩ := Turns.stateAt_succ h
      rw [ih ht, avx2Body_visit] at hb
      split_ifs at hb
      exact (Sum.inl.inj hb).symm

/-- A turn begins exactly when every one before it goes round again. -/
theorem avx2At_isSome_iff {m : MemIndex n} {key : UInt64} {k : ℕ} :
    m.avx2At key k = some (visit n key k) ↔
      ∀ j < k, m.Goes key j ∧ visit n key (j + 1) ≠ home n key := by
  induction k with
  | zero => exact iff_of_true rfl fun j hj => absurd hj (Nat.not_lt_zero j)
  | succ k ih =>
      constructor
      · intro h j hj
        obtain ⟨t, ht, hb⟩ := Turns.stateAt_succ h
        obtain rfl := avx2At_eq_some ht
        rw [avx2Body_visit] at hb
        split_ifs at hb with hgo
        rcases Nat.lt_succ_iff_lt_or_eq.mp hj with hlt | rfl
        · exact ih.mp ht j hlt
        · exact hgo
      · intro h
        refine Turns.stateAt_of_again (ih.mpr fun j hj => h j (Nat.lt_succ_of_lt hj)) ?_
        rw [avx2Body_visit, if_pos (h k (Nat.lt_succ_self k))]

/-- **What the loop returns**: the match of the first turn that does not go round again. -/
theorem findAvx2_iff {m : MemIndex n} {key : UInt64} {r : Option (Fin (2 ^ n))} :
    m.FindAvx2 key r ↔ ∃ k, (∀ j < k, m.Goes key j ∧ visit n key (j + 1) ≠ home n key) ∧
      ¬ (m.Goes key k ∧ visit n key (k + 1) ≠ home n key) ∧
        m.groupMatch key (alignedIdx (visit n key k)) = r := by
  refine exists_congr fun k => ?_
  constructor
  · rintro ⟨t, ht, hb⟩
    obtain rfl := avx2At_eq_some ht
    rw [avx2Body_visit] at hb
    split_ifs at hb with hgo
    exact ⟨avx2At_isSome_iff.mp ht, hgo, Sum.inr.inj hb⟩
  · rintro ⟨hall, hgo, rfl⟩
    refine ⟨visit n key k, avx2At_isSome_iff.mpr hall, ?_⟩
    rw [avx2Body_visit, if_neg hgo]

/-! ### Termination -/

/-- The loop is left, and no group is visited twice. -/
def VisitsOnce (m : MemIndex n) (key : UInt64) : Prop :=
  (∃ r, m.FindAvx2 key r) ∧ ∀ i j a b, i < j → m.avx2At key i = some a →
    m.avx2At key j = some b → groupOf a ≠ groupOf b

/-- Two turns within one circle visit different groups. -/
theorem groupOf_visit_ne {n : ℕ} {key : UInt64} {i j : ℕ} (hij : i < j)
    (hj : j < i + groupCount n) : groupOf (visit n key i) ≠ groupOf (visit n key j) := by
  rw [groupOf_visit, groupOf_visit]
  intro h
  have hmod : i ≡ j [MOD groupCount n] := Nat.ModEq.add_left_cancel' _ h
  have := (Nat.modEq_iff_dvd' hij.le).mp hmod
  have := Nat.le_of_dvd (by omega) this
  omega

/-- Nearer to the beginning of its group a slot lets the walk go on as well. -/
theorem shouldContinue_of_le {m : MemIndex n} {idx idx' : Fin (2 ^ n)}
    (hg : groupOf idx' = groupOf idx) (hle : idx' ≤ idx)
    (h : m.shouldContinue idx = true) : m.shouldContinue idx' = true := by
  have ha : alignedIdx idx' = alignedIdx idx := congrArg (· * 4) hg
  have hle' : idx'.val ≤ idx.val := hle
  simp only [shouldContinue, ha, List.any_eq_true, decide_eq_true_eq] at h ⊢
  obtain ⟨i, hi, hp⟩ := h
  exact ⟨i, hi, by omega⟩

/-- When the groups of the first circle let the walk go on, all turns do. -/
theorem goes_of_circle {m : MemIndex n} {key : UInt64}
    (h : ∀ k < groupCount n, m.Goes key k) (k : ℕ) : m.Goes key k := by
  cases k with
  | zero => exact h 0 (groupCount_pos n)
  | succ k =>
      obtain ⟨hmatch, hcont⟩ := h ((k + 1) % groupCount n) (Nat.mod_lt _ (groupCount_pos n))
      have hg : groupOf (visit n key (k + 1)) =
          groupOf (visit n key ((k + 1) % groupCount n)) := by
        rw [groupOf_visit, groupOf_visit, Nat.add_mod_mod]
      have ha : alignedIdx (visit n key (k + 1)) =
          alignedIdx (visit n key ((k + 1) % groupCount n)) := congrArg (· * 4) hg
      refine ⟨by rw [ha, hmatch], shouldContinue_of_le hg ?_ hcont⟩
      -- a later turn begins at the first slot of its group
      have hval := visit_succ_val n key k
      rw [groupOf, groupOf] at hg
      rw [Fin.le_def]
      omega

/-- When the loop must end: the home slot begins a group, or a group of the first circle stops
the walk. -/
def AvxStops (m : MemIndex n) (key : UInt64) : Prop :=
  (home n key).val % 4 = 0 ∨ ∃ k < groupCount n, ¬ m.Goes key k

instance (m : MemIndex n) (key : UInt64) : Decidable (m.AvxStops key) :=
  inferInstanceAs (Decidable (_ ∨ _))

/-- Some turn of the first circle does not go round again. -/
theorem AvxStops.exists_last {m : MemIndex n} {key : UInt64} (h : m.AvxStops key) :
    ∃ k < groupCount n, ¬ (m.Goes key k ∧ visit n key (k + 1) ≠ home n key) := by
  rcases h with h | ⟨k, hk, hgo⟩
  · have hpos := groupCount_pos n
    refine ⟨groupCount n - 1, by omega, fun hgo => hgo.2 (visit_succ_eq_home_iff.mpr ⟨h, ?_⟩)⟩
    rw [Nat.sub_add_cancel hpos]
  · exact ⟨k, hk, fun h => hgo h.1⟩

/-- A loop that must end is left within one circle. -/
theorem AvxStops.visitsOnce {m : MemIndex n} {key : UInt64} (h : m.AvxStops key) :
    m.VisitsOnce key := by
  have hlast := h.exists_last
  classical
  obtain ⟨hlt, hdone⟩ := Nat.find_spec hlast
  set last := Nat.find hlast with hdef
  have hbefore : ∀ j < last, m.Goes key j ∧ visit n key (j + 1) ≠ home n key := by
    intro j hj
    by_contra hgo
    exact Nat.find_min hlast hj ⟨hj.trans hlt, hgo⟩
  refine ⟨⟨_, findAvx2_iff.mpr ⟨last, hbefore, hdone, rfl⟩⟩, fun i j a b hij hi hj => ?_⟩
  obtain rfl := avx2At_eq_some hi
  obtain rfl := avx2At_eq_some hj
  have hle : j ≤ last := by
    by_contra hgt
    exact hdone (avx2At_isSome_iff.mp hj last (not_le.mp hgt))
  exact groupOf_visit_ne hij (by omega)

/-- A loop that need not end does not. -/
theorem avxStops_of_findAvx2 {m : MemIndex n} {key : UInt64} {r : Option (Fin (2 ^ n))}
    (h : m.FindAvx2 key r) : m.AvxStops key := by
  by_contra hnot
  rw [AvxStops, not_or] at hnot
  obtain ⟨hhome, hgoes⟩ := hnot
  push Not at hgoes
  obtain ⟨k, -, hdone, -⟩ := findAvx2_iff.mp h
  exact hdone ⟨goes_of_circle hgoes k, fun h => hhome (visit_succ_eq_home_iff.mp h).1⟩

/-- **When the loop ends, and when it visits each group at most once**: exactly when the home
slot begins a group or a group of the first circle stops the walk. -/
theorem visitsOnce_iff (m : MemIndex n) (key : UInt64) :
    (m.VisitsOnce key ↔ m.AvxStops key) ∧ ((∃ r, m.FindAvx2 key r) ↔ m.AvxStops key) := by
  refine ⟨⟨?_, AvxStops.visitsOnce⟩, ⟨?_, fun h => h.visitsOnce.1⟩⟩
  · rintro ⟨⟨r, hr⟩, -⟩
    exact avxStops_of_findAvx2 hr
  · rintro ⟨r, hr⟩
    exact avxStops_of_findAvx2 hr

/-! ### Agreement with `find` -/

/-- A match on a well-formed table is what `find` returns. -/
theorem Wf.find_of_groupMatch {m : MemIndex n} (hm : m.Wf) {key : UInt64}
    {idx i : Fin (2 ^ n)} (h : m.groupMatch key (alignedIdx idx) = some i) :
    m.find key = some i := by
  obtain ⟨-, ht, hk, hd⟩ := of_groupMatch h
  refine hm.find_eq ?_ hk hd
  by_contra hno
  -- an unused slot is zeroed and never carries the fingerprint of key 0
  rw [hm.unused i hno] at ht hk
  rw [← hk] at ht
  exact tag_zero_ne ht.symm

/-- The group of the entry that `find` returns has a match. -/
theorem Wf.groupMatch_of_find {m : MemIndex n} (hm : m.Wf) {key : UInt64}
    {idx i : Fin (2 ^ n)} (h : m.find key = some i) (hg : groupOf i = groupOf idx) :
    m.groupMatch key (alignedIdx idx) = some i := by
  obtain ⟨ho, hk, hd⟩ := hm.of_find h
  have ht : (m.entries i).tag = HashUtil.tag key := by rw [hm.tag_eq i ho, hk]
  obtain ⟨j, hj⟩ := Option.ne_none_iff_exists'.mp (groupMatch_ne_none hg ht hk hd)
  rw [hj, ← h, ← hm.find_of_groupMatch hj]

/-- Every group that the walk visits in front of the one that holds a live entry of the key
lets it go on. -/
def EntryInReach (m : MemIndex n) (key : UInt64) : Prop :=
  ∀ i, m.Occupied i → (m.entries i).key = key → (m.entries i).deleted = false →
    ∀ k, (∀ l ≤ k, groupOf (visit n key l) ≠ groupOf i) → m.shouldContinue (visit n key k) = true

/-- **When the vector lookup agrees with the scalar one**, on every table that orderly calls
lead to and for every key for which it returns. -/
theorem findAvx2_eq_find_iff {ops : List IndexOp} {m : MemIndex n}
    (hops : (indexMachine n).Meets OrderlyOp (fresh n) ops)
    (hrun : (indexMachine n).run (fresh n) ops = some m) {key : UInt64}
    {r : Option (Fin (2 ^ n))} (hr : m.FindAvx2 key r) :
    r = m.find key ↔ m.EntryInReach key := by
  have hm : m.Wf := (fresh_wf n).run hops hrun
  obtain ⟨last, hbefore, hdone, rfl⟩ := findAvx2_iff.mp hr
  constructor
  · intro heq i ho hkey hd k hk
    rw [hm.find_eq ho hkey hd] at heq
    have hlast := (of_groupMatch heq).1
    have hlt : k < last := by
      by_contra hle
      exact hk last (not_lt.mp hle) hlast.symm
    exact (hbefore k hlt).1.2
  · intro hreach
    cases hmatch : m.groupMatch key (alignedIdx (visit n key last)) with
    | some i => exact (hm.find_of_groupMatch hmatch).symm
    | none =>
        cases hfind : m.find key with
        | none => rfl
        | some i =>
            -- no group up to the last one is that of the entry
            have hmiss : ∀ l ≤ last, groupOf (visit n key l) ≠ groupOf i := by
              intro l hl hg
              have hsome := hm.groupMatch_of_find hfind hg.symm
              rcases Nat.lt_or_eq_of_le hl with hlt | rfl
              · rw [(hbefore l hlt).1.1] at hsome
                cases hsome
              · rw [hmatch] at hsome
                cases hsome
            obtain ⟨ho, hk, hd⟩ := hm.of_find hfind
            have hgoes : m.Goes key last := ⟨hmatch, hreach i ho hk hd last hmiss⟩
            have hhome : visit n key (last + 1) = home n key := by
              by_contra hne
              exact hdone ⟨hgoes, hne⟩
            -- but a full circle visits every group
            have hcircle := Nat.le_of_dvd (Nat.succ_pos last) (visit_succ_eq_home_iff.mp hhome).2
            have hi := groupOf_lt i
            have hh := groupOf_lt (home n key)
            refine absurd ?_ (hmiss ((groupOf i + groupCount n - groupOf (home n key)) %
              groupCount n) ?_)
            · rw [groupOf_visit, Nat.add_mod_mod, Nat.add_sub_cancel' (by omega),
                Nat.add_mod_right, Nat.mod_eq_of_lt hi]
            · have := Nat.mod_lt (groupOf i + groupCount n - groupOf (home n key))
                (groupCount_pos n)
              omega

/-! ### Lookups that go wrong -/

/-- A table with one key, in its last slot. -/
def lastSlot (n : ℕ) (a : UInt64) : MemIndex n where
  entries := fun i => if i.val + 1 = 2 ^ n then sampleEntry a 1 else MemIndexEntry.zero
  psl := fun i => if i.val + 1 = 2 ^ n then 1 else 0
  size := 1
  globalSequence := 0

/-- A table with a second key that has wrapped around to the first slot. -/
def wrapped (n : ℕ) (a b : UInt64) : MemIndex n where
  entries := fun i => if i.val + 1 = 2 ^ n then sampleEntry a 1
    else if i.val = 0 then sampleEntry b 2 else MemIndexEntry.zero
  psl := fun i => if i.val + 1 = 2 ^ n then 1 else if i.val = 0 then 2 else 0
  size := 2
  globalSequence := 0

theorem upsert_wrapped_two : (fresh 2).upsert 2 (sampleEntry 2 1) = (lastSlot 2 2, true) ∧
    (lastSlot 2 2).upsert 6 (sampleEntry 6 2) = (wrapped 2 2 6, true) :=
  ⟨Prod.ext (eq_of_slots (by decide +kernel) (by decide +kernel) (by decide +kernel)
      (by decide +kernel)) (by decide +kernel),
    Prod.ext (eq_of_slots (by decide +kernel) (by decide +kernel) (by decide +kernel)
      (by decide +kernel)) (by decide +kernel)⟩

theorem upsert_wrapped_three : (fresh 3).upsert 2 (sampleEntry 2 1) = (lastSlot 3 2, true) ∧
    (lastSlot 3 2).upsert 10 (sampleEntry 10 2) = (wrapped 3 2 10, true) :=
  ⟨Prod.ext (eq_of_slots (by decide +kernel) (by decide +kernel) (by decide +kernel)
      (by decide +kernel)) (by decide +kernel),
    Prod.ext (eq_of_slots (by decide +kernel) (by decide +kernel) (by decide +kernel)
      (by decide +kernel)) (by decide +kernel)⟩

/-- **A lookup that does not end**: in a table of capacity 4 with two keys, the home slot of an
absent key lies inside the only group, and the group always lets the walk go on. -/
theorem findAvx2_loops : ∃ m, (indexMachine 2).run (fresh 2)
    [.upsert (sampleEntry 2 1), .upsert (sampleEntry 6 2)] = some m ∧
      ¬ m.VisitsOnce 4 ∧ ∀ r, ¬ m.FindAvx2 4 r := by
  have h1 : (indexMachine 2).step (fresh 2) (.upsert (sampleEntry 2 1)) =
      some (lastSlot 2 2) := step_upsert upsert_wrapped_two.1
  have h2 : (indexMachine 2).step (lastSlot 2 2) (.upsert (sampleEntry 6 2)) =
      some (wrapped 2 2 6) := step_upsert upsert_wrapped_two.2
  have hstops : ¬ (wrapped 2 2 6).AvxStops 4 := by decide +kernel
  refine ⟨wrapped 2 2 6, ?_, fun h => ?_, fun r hr => hstops (avxStops_of_findAvx2 hr)⟩
  · simp only [Machine.run, h1, h2, Option.bind_some]
  · obtain ⟨⟨r, hr⟩, -⟩ := h
    exact hstops (avxStops_of_findAvx2 hr)

/-- The run that fills the table of capacity 8. -/
theorem run_wrapped_three : (indexMachine 3).run (fresh 3)
      [.upsert (sampleEntry 2 1), .upsert (sampleEntry 10 2)] = some (wrapped 3 2 10) ∧
    (indexMachine 3).Meets OrderlyOp (fresh 3)
      [.upsert (sampleEntry 2 1), .upsert (sampleEntry 10 2)] := by
  have h1 : (indexMachine 3).step (fresh 3) (.upsert (sampleEntry 2 1)) =
      some (lastSlot 3 2) := step_upsert upsert_wrapped_three.1
  have h2 : (indexMachine 3).step (lastSlot 3 2) (.upsert (sampleEntry 10 2)) =
      some (wrapped 3 2 10) := step_upsert upsert_wrapped_three.2
  have ho1 : (fresh 3).Orderly 2 := by decide +kernel
  have ho2 : (lastSlot 3 2).Orderly 10 := by decide +kernel
  refine ⟨by simp only [Machine.run, h1, h2, Option.bind_some], Machine.Meets.cons _ ?_ h1
    (Machine.Meets.cons _ ?_ h2 trivial)⟩
  · rw [OrderlyOp, sampleEntry, tagged_key]
    exact ho1
  · rw [OrderlyOp, sampleEntry, tagged_key]
    exact ho2

/-- The vector lookup of the key in its home slot agrees with `find`. -/
theorem entryInReach_wrapped : (wrapped 3 2 10).EntryInReach 2 := by
  have hr : (wrapped 3 2 10).FindAvx2 2 (some 7) :=
    findAvx2_iff.mpr ⟨0, fun j hj => absurd hj (Nat.not_lt_zero j), by decide +kernel,
      by decide +kernel⟩
  exact (findAvx2_eq_find_iff run_wrapped_three.2 run_wrapped_three.1 hr).mp (by decide +kernel)

/-- **A lookup that misses its entry**: the entry of key 10 has wrapped around to slot 0, and
the group of its home slot stops the walk. -/
theorem findAvx2_misses : ∃ m, (indexMachine 3).run (fresh 3)
    [.upsert (sampleEntry 2 1), .upsert (sampleEntry 10 2)] = some m ∧
      m.FindAvx2 10 none ∧ m.find 10 = some 0 := by
  refine ⟨wrapped 3 2 10, run_wrapped_three.1, ?_, by decide +kernel⟩
  exact findAvx2_iff.mpr ⟨0, fun j hj => absurd hj (Nat.not_lt_zero j), by decide +kernel,
    by decide +kernel⟩

end MemIndex

end SpdkKv
