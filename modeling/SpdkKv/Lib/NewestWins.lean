import Mathlib.Data.List.Induction
import Mathlib.Order.Nat

/-!
# Registers in which the Newest Write Wins

A register that is written by commands: a `put` replaces the value only when it is newer
than the one that is there, a `del` marks whatever value is there as dead without looking
at ranks. A dead value keeps its rank, so an older `put` does not bring the register back.

The second half asks when the outcome of a list of ranked events is that of its newest
event. Puts alone commute; a `del` acts on whatever has arrived before it.

## Main results

* `run_of_newestPut`: **the register after a list of events** holds the newest `put`, dead
  exactly when a `del` came after it.
* `settles_iff`: **when the newest event decides** — exactly when, for the newest `put`, a
  `del` comes after it in the list if and only if a `del` is newer than it.
-/

universe u v

/-- Values with a comparison of their ranks and a way of marking a value as dead. -/
structure NewestWins (α : Type u) where
  /-- The first value has the newer rank. -/
  newer : α → α → Bool
  /-- The value, dead. -/
  kill : α → α
  /-- The value is dead. -/
  dead : α → Bool
  /-- A dead value keeps its rank. -/
  newer_kill : ∀ a b, newer a (kill b) = newer a b
  /-- Killing twice changes nothing. -/
  kill_kill : ∀ a, kill (kill a) = kill a
  /-- A killed value is dead. -/
  dead_kill : ∀ a, dead (kill a) = true

namespace NewestWins

/-- A command to a register. -/
inductive Cmd (α : Type u)
  /-- Write a value unless the one that is there is as new. -/
  | put (a : α)
  /-- Mark the value that is there as dead. -/
  | del

variable {α : Type u} (N : NewestWins α)

/-! ### Commands -/

/-- Write a value unless the one that is there is as new. -/
def put (a : α) : Option α → Option α
  | none => some a
  | some b => if N.newer a b then some a else some b

/-- Mark the value that is there as dead. -/
def del : Option α → Option α := Option.map N.kill

/-- What a reader of the register sees. -/
def look (s : Option α) : Option α := s.filter fun a => !N.dead a

/-- The effect of a command. -/
def apply (s : Option α) : Cmd α → Option α
  | .put a => N.put a s
  | .del => N.del s

@[simp] theorem put_none (a : α) : N.put a none = some a := rfl

theorem put_some (a b : α) :
    N.put a (some b) = some (if N.newer a b then a else b) := by
  rw [put]
  split_ifs <;> rfl

@[simp] theorem look_none : N.look none = none := rfl

theorem look_some (a : α) : N.look (some a) = if N.dead a then none else some a := by
  cases h : N.dead a <;> simp [look, Option.filter, h]

@[simp] theorem look_del (s : Option α) : N.look (N.del s) = none := by
  cases s with
  | none => rfl
  | some a => rw [del, Option.map_some, look_some, N.dead_kill, if_pos rfl]

/-! ### Lists of events -/

section Events

variable {ι : Type v} (cmd : ι → Cmd α) (rank : ι → ℕ)

/-- The register after a list of events. -/
def run (l : List ι) (s : Option α) : Option α := l.foldl (fun s i => N.apply s (cmd i)) s

/-- A `del` comes after a `put` of rank `r` in the list. -/
def DelAfter (l : List ι) (r : ℕ) : Prop :=
  ∃ i j a, [i, j].Sublist l ∧ cmd i = Cmd.put a ∧ rank i = r ∧ cmd j = Cmd.del

/-- The event is a `put` of the list and none of them is newer. -/
def IsNewestPut (l : List ι) (p : ι) : Prop :=
  p ∈ l ∧ (∃ a, cmd p = Cmd.put a) ∧ ∀ q ∈ l, ∀ b, cmd q = Cmd.put b → rank q ≤ rank p

/-- The register shows the outcome of the newest event of the list: the value of a `put` of
its rank, or nothing. -/
def Settles (l : List ι) (s : Option α) : Prop :=
  ∀ w ∈ l, (∀ i ∈ l, rank i ≤ rank w) →
    match cmd w with
    | .put _ => ∃ q ∈ l, ∃ b, cmd q = Cmd.put b ∧ rank q = rank w ∧ N.look s = some b
    | .del => N.look s = none

/-- The comparison of the values of the list is that of the ranks of their events, and every
value is newer than the initial one. -/
structure Ranked (l : List ι) (s : Option α) : Prop where
  /-- Values compare as their ranks. -/
  newer_iff : ∀ i ∈ l, ∀ j ∈ l, ∀ a b, cmd i = Cmd.put a → cmd j = Cmd.put b →
    (N.newer a b = true ↔ rank j < rank i)
  /-- The initial value is older. -/
  newer_init : ∀ i ∈ l, ∀ a b, cmd i = Cmd.put a → s = some b → N.newer a b = true
  /-- A value arrives alive. -/
  alive : ∀ i ∈ l, ∀ a, cmd i = Cmd.put a → N.dead a = false

variable {N cmd rank} {l : List ι} {s : Option α}

theorem run_concat (i : ι) : N.run cmd (l ++ [i]) s = N.apply (N.run cmd l s) (cmd i) := by
  rw [run, List.foldl_append]
  rfl

/-- A list that is not empty has an event of the largest rank. -/
theorem exists_max_rank (rank : ι → ℕ) (hl : l ≠ []) : ∃ w ∈ l, ∀ i ∈ l, rank i ≤ rank w := by
  induction l with
  | nil => exact absurd rfl hl
  | cons i l ih =>
      by_cases hnil : l = []
      · exact ⟨i, by simp, by simp [hnil]⟩
      · obtain ⟨w, hw, hmax⟩ := ih hnil
        rcases le_total (rank w) (rank i) with hle | hle
        · refine ⟨i, by simp, fun j hj => ?_⟩
          rcases List.mem_cons.mp hj with rfl | hj
          · exact le_rfl
          · exact (hmax j hj).trans hle
        · refine ⟨w, List.mem_cons_of_mem _ hw, fun j hj => ?_⟩
          rcases List.mem_cons.mp hj with rfl | hj
          · exact hle
          · exact hmax j hj

theorem run_map : N.run id (l.map cmd) s = N.run cmd l s := by
  rw [run, run, List.foldl_map]
  rfl

theorem Ranked.left {i : ι} (h : N.Ranked cmd rank (l ++ [i]) s) : N.Ranked cmd rank l s where
  newer_iff := fun i hi j hj => h.newer_iff i (List.mem_append_left _ hi) j
    (List.mem_append_left _ hj)
  newer_init := fun i hi => h.newer_init i (List.mem_append_left _ hi)
  alive := fun i hi => h.alive i (List.mem_append_left _ hi)

theorem sublist_pair_concat {i j k : ι} :
    [i, j].Sublist (l ++ [k]) ↔ [i, j].Sublist l ∨ (i ∈ l ∧ j = k) := by
  constructor
  · intro h
    rw [List.sublist_append_iff] at h
    obtain ⟨l₁, l₂, heq, h1, h2⟩ := h
    rcases l₁ with - | ⟨x, - | ⟨y, l₁⟩⟩
    · have : [i, j].length ≤ [k].length := by
        simpa [← (show [i, j] = l₂ by simpa using heq)] using h2.length_le
      simp at this
    · obtain ⟨rfl, rfl⟩ : i = x ∧ [j] = l₂ := by simpa using heq
      exact Or.inr ⟨by simpa using h1, by simpa using h2⟩
    · obtain ⟨rfl, rfl, hnil⟩ : i = x ∧ j = y ∧ ([] : List ι) = l₁ ++ l₂ := by
        simpa using heq
      obtain ⟨rfl, -⟩ := List.append_eq_nil_iff.mp hnil.symm
      exact Or.inl h1
  · rintro (h | ⟨hi, rfl⟩)
    · exact h.trans (List.sublist_append_left _ _)
    · exact (List.singleton_sublist.mpr hi).append (List.Sublist.refl [j])

theorem delAfter_concat_put {r : ℕ} {i : ι} {a : α} (hi : cmd i = Cmd.put a) :
    DelAfter cmd rank (l ++ [i]) r ↔ DelAfter cmd rank l r := by
  constructor
  · rintro ⟨x, y, b, hsub, hx, hr, hy⟩
    rcases sublist_pair_concat.mp hsub with h | ⟨-, rfl⟩
    · exact ⟨x, y, b, h, hx, hr, hy⟩
    · rw [hi] at hy
      cases hy
  · rintro ⟨x, y, b, hsub, h⟩
    exact ⟨x, y, b, hsub.trans (List.sublist_append_left _ _), h⟩

theorem delAfter_concat_del {p i : ι} {a : α} (hp : p ∈ l) (hput : cmd p = Cmd.put a)
    (hi : cmd i = Cmd.del) : DelAfter cmd rank (l ++ [i]) (rank p) :=
  ⟨p, i, a, sublist_pair_concat.mpr (Or.inr ⟨hp, rfl⟩), hput, rfl, hi⟩

/-- A `del` after a `put` of rank `r` needs such a `put`. -/
theorem DelAfter.exists_put {r : ℕ} (h : DelAfter cmd rank l r) :
    ∃ i ∈ l, ∃ a, cmd i = Cmd.put a ∧ rank i = r := by
  obtain ⟨i, j, a, hsub, hi, hr, -⟩ := h
  exact ⟨i, hsub.subset (by simp), a, hi, hr⟩

theorem IsNewestPut.concat_del {p i : ι} (h : IsNewestPut cmd rank l p)
    (hi : cmd i = Cmd.del) : IsNewestPut cmd rank (l ++ [i]) p := by
  obtain ⟨hp, hput, hmax⟩ := h
  refine ⟨List.mem_append_left _ hp, hput, fun q hq b hb => ?_⟩
  rcases List.mem_append.mp hq with hq | hq
  · exact hmax q hq b hb
  · obtain rfl := List.mem_singleton.mp hq
    rw [hi] at hb
    cases hb

theorem IsNewestPut.concat_put {p i : ι} (h : IsNewestPut cmd rank l p)
    (hi : rank i ≤ rank p) : IsNewestPut cmd rank (l ++ [i]) p := by
  obtain ⟨hp, hput, hmax⟩ := h
  refine ⟨List.mem_append_left _ hp, hput, fun q hq b hb => ?_⟩
  rcases List.mem_append.mp hq with hq | hq
  · exact hmax q hq b hb
  · obtain rfl := List.mem_singleton.mp hq
    exact hi

/-- A `put` newer than every `put` so far is the newest, and no `del` comes after it. -/
theorem isNewestPut_last (rank : ι → ℕ) (l : List ι) {i : ι} {a : α} (hi : cmd i = Cmd.put a)
    (hmax : ∀ q ∈ l, ∀ b, cmd q = Cmd.put b → rank q < rank i) :
    IsNewestPut cmd rank (l ++ [i]) i ∧ ¬ DelAfter cmd rank (l ++ [i]) (rank i) := by
  refine ⟨⟨by simp, ⟨a, hi⟩, fun q hq b hb => ?_⟩, fun h => ?_⟩
  · rcases List.mem_append.mp hq with hq | hq
    · exact (hmax q hq b hb).le
    · rw [List.mem_singleton.mp hq]
  · obtain ⟨q, hq, b, hb, hr⟩ := ((delAfter_concat_put hi).mp h).exists_put
    exact absurd hr (hmax q hq b hb).ne

/-- **The register after a list of events**: without a `put` the initial value or its dead
form, otherwise the value of a newest `put`, dead exactly when a `del` came after it. -/
theorem run_of_newestPut (h : N.Ranked cmd rank l s) :
    ((∀ i ∈ l, cmd i = Cmd.del) ∧ (N.run cmd l s = s ∨ N.run cmd l s = N.del s)) ∨
    ∃ p b, IsNewestPut cmd rank l p ∧ cmd p = Cmd.put b ∧
      (¬ DelAfter cmd rank l (rank p) ∧ N.run cmd l s = some b ∨
        DelAfter cmd rank l (rank p) ∧ N.run cmd l s = some (N.kill b)) := by
  induction l using List.reverseRecOn with
  | nil => exact Or.inl ⟨by simp, Or.inl rfl⟩
  | append_singleton l i ih =>
      rw [run_concat]
      cases hi : cmd i with
      | del =>
          rcases ih h.left with ⟨hdel, hrun⟩ | ⟨p, b, hp, hb, hrun⟩
          · refine Or.inl ⟨?_, Or.inr ?_⟩
            · intro j hj
              rcases List.mem_append.mp hj with hj | hj
              · exact hdel j hj
              · rw [List.mem_singleton.mp hj, hi]
            · rcases hrun with hrun | hrun
              · rw [hrun]
                rfl
              · rw [hrun]
                cases s with
                | none => rfl
                | some a => exact congrArg some (N.kill_kill a)
          · refine Or.inr ⟨p, b, hp.concat_del hi, hb,
              Or.inr ⟨delAfter_concat_del hp.1 hb hi, ?_⟩⟩
            rcases hrun with ⟨-, hrun⟩ | ⟨-, hrun⟩
            · rw [hrun]
              rfl
            · rw [hrun]
              exact congrArg some (N.kill_kill b)
      | put c =>
          have hmem : i ∈ l ++ [i] := by simp
          rcases ih h.left with ⟨hdel, hrun⟩ | ⟨p, b, hp, hb, hrun⟩
          · obtain ⟨hnew, hnone⟩ := isNewestPut_last rank l hi
              (fun q hq b hb => by rw [hdel q hq] at hb; cases hb)
            refine Or.inr ⟨i, c, hnew, hi, Or.inl ⟨hnone, ?_⟩⟩
            cases s with
            | none => rcases hrun with hrun | hrun <;> rw [hrun] <;> rfl
            | some a =>
                have hn := h.newer_init i hmem c a hi rfl
                rcases hrun with hrun | hrun
                · rw [hrun, apply, put_some, if_pos hn]
                · rw [hrun, apply, del, Option.map_some, put_some, N.newer_kill, if_pos hn]
          · have hn := h.newer_iff i hmem p (List.mem_append_left _ hp.1) c b hi hb
            by_cases hlt : rank p < rank i
            · -- the new value replaces the one that is there
              obtain ⟨hnew, hnone⟩ := isNewestPut_last rank l hi
                (fun q hq d hd => lt_of_le_of_lt (hp.2.2 q hq d hd) hlt)
              refine Or.inr ⟨i, c, hnew, hi, Or.inl ⟨hnone, ?_⟩⟩
              rcases hrun with ⟨-, hrun⟩ | ⟨-, hrun⟩
              · rw [hrun, apply, put_some, if_pos (hn.mpr hlt)]
              · rw [hrun, apply, put_some, N.newer_kill, if_pos (hn.mpr hlt)]
            · have hn' : ¬ N.newer c b = true := fun h => hlt (hn.mp h)
              refine Or.inr ⟨p, b, hp.concat_put (not_lt.mp hlt), hb, ?_⟩
              rw [delAfter_concat_put hi]
              rcases hrun with ⟨hd, hrun⟩ | ⟨hd, hrun⟩
              · exact Or.inl ⟨hd, by rw [hrun, apply, put_some, if_neg hn']⟩
              · exact Or.inr ⟨hd, by rw [hrun, apply, put_some, N.newer_kill, if_neg hn']⟩

/-- A reader sees the value of the newest `put` unless a `del` came after it. -/
theorem look_run_of_newestPut (h : N.Ranked cmd rank l s) {p : ι}
    (hp : IsNewestPut cmd rank l p) :
    (DelAfter cmd rank l (rank p) → N.look (N.run cmd l s) = none) ∧
    (¬ DelAfter cmd rank l (rank p) → ∃ q ∈ l, ∃ b, cmd q = Cmd.put b ∧ rank q = rank p ∧
      N.look (N.run cmd l s) = some b) := by
  obtain ⟨hmem, ⟨a, ha⟩, hmax⟩ := hp
  rcases run_of_newestPut h with ⟨hdel, -⟩ | ⟨q, b, hq, hb, hrun⟩
  · have := hdel p hmem
    rw [ha] at this
    cases this
  · have hr : rank q = rank p := le_antisymm (hmax q hq.1 b hb) (hq.2.2 p hmem a ha)
    rw [← hr]
    rcases hrun with ⟨hno, hrun⟩ | ⟨hyes, hrun⟩
    · refine ⟨fun hd => absurd hd hno, fun _ => ⟨q, hq.1, b, hb, rfl, ?_⟩⟩
      rw [hrun, look_some, h.alive q hq.1 b hb, if_neg Bool.false_ne_true]
    · refine ⟨fun _ => ?_, fun hd => absurd hyes hd⟩
      rw [hrun, look_some, N.dead_kill, if_pos rfl]

/-- Without a `put` a reader sees nothing once an event has arrived. -/
theorem look_run_of_no_put (hl : l ≠ []) (hdel : ∀ i ∈ l, cmd i = Cmd.del) :
    N.look (N.run cmd l s) = none := by
  cases l using List.reverseRecOn with
  | nil => exact absurd rfl hl
  | append_singleton l i =>
      rw [run_concat, hdel i (by simp)]
      exact N.look_del _

/-- **When the newest event decides.** Provided events of one rank are of one kind, the
register settles on the outcome of the newest event exactly when, for the newest `put`, a
`del` comes after it if and only if a `del` is newer than it. -/
theorem settles_iff (h : N.Ranked cmd rank l s)
    (hkind : ∀ i ∈ l, ∀ j ∈ l, rank i = rank j → cmd i = Cmd.del → cmd j = Cmd.del) :
    N.Settles cmd rank l (N.run cmd l s) ↔
      ∀ p, IsNewestPut cmd rank l p →
        (DelAfter cmd rank l (rank p) ↔ ∃ j ∈ l, cmd j = Cmd.del ∧ rank p < rank j) := by
  constructor
  · rintro hs p hp
    obtain ⟨hdead, hlive⟩ := look_run_of_newestPut h hp
    obtain ⟨w, hw, hwmax⟩ := exists_max_rank rank (List.ne_nil_of_mem hp.1)
    have hsw := hs w hw hwmax
    constructor
    · intro hd
      cases hcw : cmd w with
      | del =>
          refine ⟨w, hw, hcw, lt_of_le_of_ne (hwmax p hp.1) fun heq => ?_⟩
          obtain ⟨a, ha⟩ := hp.2.1
          have := hkind w hw p hp.1 heq.symm hcw
          rw [ha] at this
          cases this
      | put a =>
          rw [hcw] at hsw
          obtain ⟨q, -, b, -, -, hlook⟩ := hsw
          rw [hdead hd] at hlook
          cases hlook
    · rintro ⟨j, hj, -, hlt⟩
      by_contra hd
      obtain ⟨q, hq, b, hb, hr, hlook⟩ := hlive hd
      cases hcw : cmd w with
      | del =>
          rw [hcw] at hsw
          rw [hsw] at hlook
          cases hlook
      | put a =>
          have := hp.2.2 w hw a hcw
          have := hwmax j hj
          omega
  · intro hcond w hw hwmax
    cases hcw : cmd w with
    | put a =>
        have hnew : IsNewestPut cmd rank l w := ⟨hw, ⟨a, hcw⟩, fun q hq _ _ => hwmax q hq⟩
        refine (look_run_of_newestPut h hnew).2 fun hd => ?_
        obtain ⟨j, hj, -, hlt⟩ := (hcond w hnew).mp hd
        exact absurd hlt (not_lt.mpr (hwmax j hj))
    | del =>
        by_cases hput : ∃ p, IsNewestPut cmd rank l p
        · obtain ⟨p, hp⟩ := hput
          refine (look_run_of_newestPut h hp).1 ((hcond p hp).mpr ⟨w, hw, hcw, ?_⟩)
          refine lt_of_le_of_ne (hwmax p hp.1) fun heq => ?_
          obtain ⟨a, ha⟩ := hp.2.1
          have := hkind w hw p hp.1 heq.symm hcw
          rw [ha] at this
          cases this
        · refine look_run_of_no_put (List.ne_nil_of_mem hw) ?_
          rcases run_of_newestPut h with ⟨hdel, -⟩ | ⟨p, b, hp, -⟩
          · exact hdel
          · exact absurd ⟨p, hp⟩ hput

end Events

end NewestWins
