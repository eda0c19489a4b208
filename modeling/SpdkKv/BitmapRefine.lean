import SpdkKv.Lib.BlockCount
import SpdkKv.ValidBitmap

/-!
# A Sparse Bitmap Is a Set of Indices

What `SparseBitmap` is for: a set of indices below its size. An index is split into a chunk, a
word and a bit; chunks come into being with their first bit and are dropped with their last.

## Main results

* `BitmapChunk.popCount_eq`: a chunk counts the bits that its tests find.
* `SparseBitmap.Tight.set`, `SparseBitmap.Tight.clear`: **the invariant** — no stored chunk is
  empty, and no bit lies behind the size.
* `SparseBitmap.Tight.mem_storedChunks`: the chunks that are counted are all that are stored.
* `SparseBitmap.Tight.popCount_eq`: then the bitmap counts the bits that its tests find.
* `SparseBitmap.refines_set`: after any calls the bitmap is the set of the indices whose last call
  was a `set`.
-/

namespace SpdkKv

/-! ### Counting the bits of a chunk -/

/-- `__builtin_popcountll`. -/
def popcountll (d : BitVec 64) : ℕ := Nat.count (fun i => d.getLsbD i = true) 64

/-- `pop_count` of a chunk. -/
def BitmapChunk.popCount (c : BitmapChunk) : ℕ :=
  ((List.finRange 512).map fun i => popcountll (c.data i)).sum

/-- **A chunk counts the bits that its tests find.** -/
theorem BitmapChunk.popCount_eq (c : BitmapChunk) :
    c.popCount = Nat.count (fun i => c.test i = true) kChunkBits := by
  have hword : ∀ (i : Fin 512) (k : ℕ), k < 64 → (c.test (i.val * 64 + k) = true ↔
      (c.data i).getLsbD k = true) := by
    intro i k hk
    have hplace : (i.val * 64 + k) % 64 = k := by omega
    have hindex : word (i.val * 64 + k) = i := by
      refine Fin.ext ?_
      have hi := i.isLt
      rw [word, Fin.val_ofNat]
      omega
    rw [test_eq, hplace, hindex]
  have hbits : kChunkBits = 512 * 64 := by decide
  rw [popCount, hbits, BlockCount.count_mul, ← List.map_coe_finRange_eq_range, List.map_map]
  refine congrArg List.sum (List.map_congr_left fun i _ => ?_)
  exact BlockCount.count_congr fun k hk => (hword i k hk).symm

/-- An empty chunk has no bit. -/
theorem BitmapChunk.isEmpty_eq_false {c : BitmapChunk} {i : ℕ} (h : c.test i = true) :
    c.isEmpty = false := by
  by_contra hempty
  rw [test_of_isEmpty (Bool.eq_true_of_not_eq_false hempty)] at h
  cases h

namespace SparseBitmap

/-! ### The chunks of a bitmap -/

/-- The chunks of `chunks_`, in the order of their indices; no bit of the bitmap is in another
one. -/
def storedChunks (self : SparseBitmap) : List BitmapChunk :=
  (List.range (self.totalBits / kChunkBits + 1)).filterMap self.chunks

/-- `pop_count`. -/
def popCount (self : SparseBitmap) : ℕ := (self.storedChunks.map BitmapChunk.popCount).sum

/-- What every call keeps: no stored chunk is empty, and no bit lies behind the size. -/
structure Tight (b : SparseBitmap) : Prop where
  nonempty : ∀ k c, b.chunks k = some c → c.isEmpty = false
  inside : ∀ k c i, b.chunks k = some c → i < kChunkBits → c.test i = true →
    k * kChunkBits + i < b.totalBits

variable {b : SparseBitmap}

theorem tight_create (totalBits : ℕ) : (create totalBits).Tight :=
  ⟨fun _ _ h => (nomatch h), fun _ _ _ h => nomatch h⟩

/-- The bit is set in its chunk, which may be a new one. -/
theorem Tight.set (h : b.Tight) (idx : ℕ) : (b.set idx).Tight := by
  rw [SparseBitmap.set]
  split_ifs with hout
  · exact h
  have hlt := mod_lt_chunk idx
  have htest : ∀ c : BitmapChunk, (c.set (idx % kChunkBits)).test (idx % kChunkBits) = true :=
    fun c => by rw [BitmapChunk.test_set hlt hlt, decide_eq_true rfl, Bool.true_or]
  refine ⟨fun k c hc => ?_, fun k c i hc hi hbit => ?_⟩
  · dsimp only at hc
    by_cases hk : k = idx / kChunkBits
    · subst hk
      rw [Function.update_self] at hc
      obtain rfl := Option.some.inj hc
      exact BitmapChunk.isEmpty_eq_false (htest _)
    · rw [Function.update_of_ne hk] at hc
      exact h.nonempty k c hc
  · dsimp only at hc
    by_cases hk : k = idx / kChunkBits
    · subst hk
      rw [Function.update_self] at hc
      obtain rfl := Option.some.inj hc
      rw [BitmapChunk.test_set hlt hi, Bool.or_eq_true, decide_eq_true_eq] at hbit
      rcases hbit with rfl | hbit
      · have hsplit := Nat.div_add_mod idx kChunkBits
        rw [mul_comm] at hsplit
        dsimp only
        omega
      · cases hold : b.chunks (idx / kChunkBits) with
        | none =>
            rw [hold, Option.getD_none, BitmapChunk.test_zero] at hbit
            cases hbit
        | some c =>
            rw [hold, Option.getD_some] at hbit
            exact h.inside _ c i hold hi hbit
    · rw [Function.update_of_ne hk] at hc
      exact h.inside k c i hc hi hbit

/-- The bit is cleared in its chunk, which is dropped if it was the last one. -/
theorem Tight.clear (h : b.Tight) (idx : ℕ) : (b.clear idx).Tight := by
  rw [SparseBitmap.clear]
  split_ifs with hout
  · exact h
  cases hold : b.chunks (idx / kChunkBits) with
  | none => exact h
  | some old =>
      dsimp only
      refine ⟨fun k c hc => ?_, fun k c i hc hi hbit => ?_⟩
      · dsimp only at hc
        by_cases hk : k = idx / kChunkBits
        · subst hk
          rw [Function.update_self] at hc
          split_ifs at hc with hempty
          obtain rfl := Option.some.inj hc
          exact Bool.eq_false_iff.mpr hempty
        · rw [Function.update_of_ne hk] at hc
          exact h.nonempty k c hc
      · dsimp only at hc
        by_cases hk : k = idx / kChunkBits
        · subst hk
          rw [Function.update_self] at hc
          split_ifs at hc
          obtain rfl := Option.some.inj hc
          rw [BitmapChunk.test_clear (mod_lt_chunk idx) hi, Bool.and_eq_true] at hbit
          exact h.inside _ old i hold hi hbit.2
        · rw [Function.update_of_ne hk] at hc
          exact h.inside k c i hc hi hbit

/-- The bits of the chunks, without a look at the size. -/
def bit (b : SparseBitmap) (i : ℕ) : Bool :=
  ((b.chunks (i / kChunkBits)).getD .zero).test (i % kChunkBits)

/-- A test finds every bit. -/
theorem Tight.test_eq_bit (h : b.Tight) (i : ℕ) : b.test i = b.bit i := by
  by_cases hi : i < b.totalBits
  · exact test_of_lt hi
  · rw [test, if_pos (not_lt.mp hi), bit]
    cases hc : b.chunks (i / kChunkBits) with
    | none => rw [Option.getD_none, BitmapChunk.test_zero]
    | some c =>
        rw [Option.getD_some]
        refine (Bool.eq_false_iff.mpr fun hbit => hi ?_).symm
        have hlt := h.inside _ c _ hc (mod_lt_chunk i) hbit
        rwa [Nat.div_add_mod'] at hlt

/-- A list of chunks that may be missing counts like one with empty chunks in their place. -/
theorem sum_filterMap_popCount (chunks : ℕ → Option BitmapChunk) (ks : List ℕ) :
    ((ks.filterMap chunks).map BitmapChunk.popCount).sum =
      (ks.map fun k => ((chunks k).getD .zero).popCount).sum := by
  have hzero : BitmapChunk.zero.popCount = 0 := by
    rw [BitmapChunk.popCount_eq, Nat.count_iff_forall_not]
    intro i _ hi
    rw [BitmapChunk.test_zero] at hi
    cases hi
  induction ks with
  | nil => rfl
  | cons k ks ih =>
      rw [List.filterMap_cons, List.map_cons, List.sum_cons, ← ih]
      cases hc : chunks k with
      | none => rw [Option.getD_none, hzero, Nat.zero_add]
      | some c => rw [List.map_cons, List.sum_cons, Option.getD_some]

/-- A chunk that is not empty has a bit. -/
theorem exists_test_of_isEmpty_eq_false {c : BitmapChunk} (h : c.isEmpty = false) :
    ∃ i < kChunkBits, c.test i = true := by
  by_contra hno
  push Not at hno
  refine Bool.eq_false_iff.mp h (decide_eq_true fun w => BitVec.eq_of_getLsbD_eq fun k hk => ?_)
  have hw := w.isLt
  have hlt : w.val * 64 + k < kChunkBits := by
    rw [kChunkBits]
    omega
  have hplace : (w.val * 64 + k) % 64 = k := by omega
  have hindex : BitmapChunk.word (w.val * 64 + k) = w := by
    refine Fin.ext ?_
    rw [BitmapChunk.word, Fin.val_ofNat]
    omega
  have hbit := Bool.eq_false_iff.mpr (hno _ hlt)
  rw [BitmapChunk.test_eq, hplace, hindex] at hbit
  rw [hbit, BitVec.getLsbD_zero]

/-- **Every stored chunk is listed.** -/
theorem Tight.mem_storedChunks (h : b.Tight) {c : BitmapChunk} :
    c ∈ b.storedChunks ↔ ∃ k, b.chunks k = some c := by
  rw [storedChunks, List.mem_filterMap]
  refine ⟨fun ⟨k, _, hk⟩ => ⟨k, hk⟩, fun ⟨k, hk⟩ => ⟨k, List.mem_range.mpr ?_, hk⟩⟩
  obtain ⟨i, hi, hbit⟩ := exists_test_of_isEmpty_eq_false (h.nonempty k c hk)
  have hlt := h.inside k c i hk hi hbit
  rw [kChunkBits] at hlt ⊢
  omega

/-- **The bitmap counts the bits that its tests find.** -/
theorem Tight.popCount_eq (h : b.Tight) :
    b.popCount = Nat.count (fun i => b.test i = true) b.totalBits := by
  have hblock : ∀ k, ((b.chunks k).getD .zero).popCount =
      Nat.count (fun i => b.test (k * kChunkBits + i) = true) kChunkBits := by
    intro k
    rw [BitmapChunk.popCount_eq]
    refine BlockCount.count_congr fun i hi => ?_
    have hdiv : (k * kChunkBits + i) / kChunkBits = k := by
      rw [kChunkBits] at hi ⊢
      omega
    have hmod : (k * kChunkBits + i) % kChunkBits = i := by
      rw [kChunkBits] at hi ⊢
      omega
    rw [h.test_eq_bit, bit, hdiv, hmod]
  have hend : b.totalBits ≤ (b.totalBits / kChunkBits + 1) * kChunkBits := by
    rw [kChunkBits]
    omega
  have hbehind : ∀ i, b.totalBits ≤ i → ¬ b.test i = true := fun i hi hbit =>
    absurd (lt_of_test hbit) (not_lt.mpr hi)
  rw [popCount, storedChunks, sum_filterMap_popCount, ← BlockCount.count_eq_of_le hbehind hend,
    BlockCount.count_mul]
  exact congrArg List.sum (List.map_congr_left fun k _ => hblock k)

/-! ### Any sequence of calls -/

end SparseBitmap

/-- A call that changes a bitmap. -/
inductive BitmapCall
  | set (idx : ℕ)
  | clear (idx : ℕ)
  deriving DecidableEq, Repr

/-- The index that a call is about. -/
def BitmapCall.idx : BitmapCall → ℕ
  | .set idx => idx
  | .clear idx => idx

/-- The last call about an index is a `set`. -/
def LastIsSet (calls : List BitmapCall) (i : ℕ) : Prop :=
  (calls.filter fun call => call.idx = i).getLast? = some (.set i)

instance (calls : List BitmapCall) : DecidablePred (LastIsSet calls) := fun _ =>
  inferInstanceAs (Decidable (_ = _))

/-- One more call decides about its own index and no other. -/
theorem lastIsSet_concat (calls : List BitmapCall) (call : BitmapCall) (i : ℕ) :
    LastIsSet (calls ++ [call]) i ↔ if call.idx = i then call = .set i else LastIsSet calls i := by
  rw [LastIsSet, List.filter_append]
  by_cases hi : call.idx = i
  · have hone : [call].filter (fun call => call.idx = i) = [call] := by simp [hi]
    rw [hone, if_pos hi, List.getLast?_concat, Option.some.injEq]
  · have hnone : [call].filter (fun call => call.idx = i) = [] := by simp [hi]
    rw [hnone, if_neg hi, List.append_nil, LastIsSet]

namespace SparseBitmap

/-- The effect of a call. -/
def apply (b : SparseBitmap) : BitmapCall → SparseBitmap
  | .set idx => b.set idx
  | .clear idx => b.clear idx

/-- The bitmap after some calls on a new one. -/
def after (totalBits : ℕ) (calls : List BitmapCall) : SparseBitmap :=
  calls.foldl apply (create totalBits)

theorem after_concat (totalBits : ℕ) (calls : List BitmapCall) (call : BitmapCall) :
    after totalBits (calls ++ [call]) = (after totalBits calls).apply call := by
  rw [after, List.foldl_append]
  rfl

theorem totalBits_after (totalBits : ℕ) (calls : List BitmapCall) :
    (after totalBits calls).totalBits = totalBits := by
  induction calls using List.reverseRecOn with
  | nil => rfl
  | append_singleton calls call ih =>
      rw [after_concat]
      cases call with
      | set idx => rw [apply, totalBits_set, ih]
      | clear idx => rw [apply, totalBits_clear, ih]

/-- **Every call keeps the invariant.** -/
theorem tight_after (totalBits : ℕ) (calls : List BitmapCall) : (after totalBits calls).Tight := by
  induction calls using List.reverseRecOn with
  | nil => exact tight_create totalBits
  | append_singleton calls call ih =>
      rw [after_concat]
      cases call with
      | set idx => exact ih.set idx
      | clear idx => exact ih.clear idx

/-- **A test tells the last call** about an index of the bitmap. -/
theorem test_after_iff (totalBits : ℕ) (calls : List BitmapCall) (i : ℕ) :
    (after totalBits calls).test i = true ↔ i < totalBits ∧ LastIsSet calls i := by
  induction calls using List.reverseRecOn with
  | nil =>
      have hnone : ¬ LastIsSet [] i := fun h => nomatch h
      rw [after, List.foldl_nil, test_create]
      exact iff_of_false Bool.false_ne_true fun h => hnone h.2
  | append_singleton calls call ih =>
      have htotal := totalBits_after totalBits calls
      rw [after_concat, lastIsSet_concat]
      cases call with
      | set idx =>
          rw [apply, test_set, Bool.or_eq_true, decide_eq_true_eq, ih, htotal, BitmapCall.idx]
          by_cases hi : idx = i
          · rw [if_pos hi]
            exact ⟨fun h => ⟨h.elim And.right And.left, congrArg _ hi⟩, fun h => .inl ⟨hi, h.1⟩⟩
          · rw [if_neg hi]
            exact or_iff_right fun h => hi h.1
      | clear idx =>
          rw [apply, test_clear, Bool.and_eq_true, ih, BitmapCall.idx]
          by_cases hi : idx = i
          · rw [if_pos hi, decide_eq_true hi]
            exact ⟨fun h => (nomatch h.1), fun h => nomatch h.2⟩
          · rw [if_neg hi, decide_eq_false hi]
            exact and_iff_right rfl

/-- **The bitmap refines a set of indices**: after any calls with any indices a test is true
exactly for the indices below the size whose last call was a `set`, `pop_count` is their number,
and no stored chunk is empty. -/
theorem refines_set (totalBits : ℕ) (calls : List BitmapCall) :
    (∀ i, (after totalBits calls).test i = true ↔ i < totalBits ∧ LastIsSet calls i) ∧
      (after totalBits calls).popCount =
        ((Finset.range totalBits).filter (LastIsSet calls)).card ∧
      ∀ k c, (after totalBits calls).chunks k = some c → c.isEmpty = false := by
  refine ⟨test_after_iff totalBits calls, ?_, (tight_after totalBits calls).nonempty⟩
  rw [(tight_after totalBits calls).popCount_eq, totalBits_after,
    ← Nat.count_eq_card_filter_range]
  exact BlockCount.count_congr fun i hi => (test_after_iff totalBits calls i).trans
    (and_iff_right hi)

end SparseBitmap

end SpdkKv
