import Mathlib.Data.BitVec
import SpdkKv.CompactionSelection

/-!
# The Bitmap of the Valid Pages of a File

`FileMetadata` counts the valid bytes of a file and, once enough of them are garbage, keeps a
bitmap of the valid pages, which lets a compaction skip the others. `mark_valid` sets bits
only in a bitmap that exists, and `mark_invalid` creates it empty: what was marked valid
before is not in it.

## Main results

* `SparseBitmap.test_set`, `SparseBitmap.test_clear`: the bits of the bitmap.
* `PageTracking.skipped_invalid`: a compaction skips invalid pages only.
* `TrackedFile.sound_iff`: **no page of a live record is invalid exactly when** the bitmap is
  created while no other record is live, and no record lies behind the first 8 GB.
* `TrackedFile.live_page_skipped`: the first overwrite makes the records before it invalid.
-/

namespace SpdkKv

/-! ### The bitmap -/

/-- `kChunkBits`. -/
def kChunkBits : ℕ := 32768

/-- A chunk of the bitmap, in words of 64 bits. -/
structure BitmapChunk where
  data : Fin 512 → BitVec 64

namespace BitmapChunk

/-- The word of a bit. -/
def word (idx : ℕ) : Fin 512 := Fin.ofNat 512 (idx / 64)

def set (c : BitmapChunk) (idx : ℕ) : BitmapChunk :=
  ⟨Function.update c.data (word idx) (c.data (word idx) ||| 1#64 <<< (idx % 64))⟩

def clear (c : BitmapChunk) (idx : ℕ) : BitmapChunk :=
  ⟨Function.update c.data (word idx) (c.data (word idx) &&& ~~~(1#64 <<< (idx % 64)))⟩

def test (c : BitmapChunk) (idx : ℕ) : Bool :=
  c.data (word idx) &&& 1#64 <<< (idx % 64) != 0#64

def isEmpty (c : BitmapChunk) : Bool := decide (∀ i, c.data i = 0#64)

/-- A new chunk. -/
def zero : BitmapChunk := ⟨fun _ => 0#64⟩

variable {c : BitmapChunk} {i j : ℕ}

/-- A test looks at one bit of a word. -/
theorem test_eq (c : BitmapChunk) (i : ℕ) :
    c.test i = (c.data (word i)).getLsbD (i % 64) := by
  have hmask : 1#64 <<< (i % 64) = BitVec.twoPow 64 (i % 64) := rfl
  have hne : BitVec.twoPow 64 (i % 64) ≠ 0#64 := by
    intro h
    have hbit := congrArg (fun x : BitVec 64 => x.getLsbD (i % 64)) h
    simp [Nat.mod_lt] at hbit
  rw [test, hmask, BitVec.and_twoPow]
  cases (c.data (word i)).getLsbD (i % 64) with
  | false => simp
  | true => simpa using hne

/-- Two bits of a chunk are at the same place of the same word only if they are the same. -/
theorem eq_of_place (hi : i < kChunkBits) (hj : j < kChunkBits) (hword : word i = word j)
    (hbit : i % 64 = j % 64) : i = j := by
  have hval := congrArg Fin.val hword
  rw [word, word, Fin.val_ofNat, Fin.val_ofNat] at hval
  rw [kChunkBits] at hi hj
  omega

theorem test_set (hi : i < kChunkBits) (hj : j < kChunkBits) :
    (c.set i).test j = (decide (i = j) || c.test j) := by
  rw [test_eq, test_eq, set]
  dsimp only
  by_cases hword : word i = word j
  · rw [← hword, Function.update_self, BitVec.getLsbD_or]
    have hmask : 1#64 <<< (i % 64) = BitVec.twoPow 64 (i % 64) := rfl
    rw [hmask, BitVec.getLsbD_twoPow, decide_eq_true (Nat.mod_lt i (by decide)), Bool.true_and,
      Bool.or_comm]
    congr 1
    exact decide_eq_decide.mpr ⟨fun h => eq_of_place hi hj hword h, fun h => by rw [h]⟩
  · rw [Function.update_of_ne (Ne.symm hword), decide_eq_false fun h => hword (by rw [h]),
      Bool.false_or]

theorem test_clear (hi : i < kChunkBits) (hj : j < kChunkBits) :
    (c.clear i).test j = (!decide (i = j) && c.test j) := by
  rw [test_eq, test_eq, clear]
  dsimp only
  by_cases hword : word i = word j
  · rw [← hword, Function.update_self, BitVec.getLsbD_and]
    have hmask : 1#64 <<< (i % 64) = BitVec.twoPow 64 (i % 64) := rfl
    have hlt : j % 64 < 64 := Nat.mod_lt j (by decide)
    rw [hmask, BitVec.getLsbD_not, BitVec.getLsbD_twoPow,
      decide_eq_true (Nat.mod_lt i (by decide)), decide_eq_true hlt, Bool.true_and, Bool.true_and,
      Bool.and_comm]
    congr 2
    exact decide_eq_decide.mpr ⟨fun h => eq_of_place hi hj hword h, fun h => by rw [h]⟩
  · rw [Function.update_of_ne (Ne.symm hword), decide_eq_false fun h => hword (by rw [h])]
    rfl

theorem test_of_isEmpty (h : c.isEmpty = true) (i : ℕ) : c.test i = false := by
  rw [test_eq, of_decide_eq_true h, BitVec.getLsbD_zero]

theorem test_zero (i : ℕ) : zero.test i = false := test_of_isEmpty (decide_eq_true fun _ => rfl) i

end BitmapChunk

/-- `SparseBitmap`: the chunks that hold a bit. -/
structure SparseBitmap where
  totalBits : ℕ
  chunks : ℕ → Option BitmapChunk

namespace SparseBitmap

/-- The constructor. -/
def create (totalBits : ℕ) : SparseBitmap := ⟨totalBits, fun _ => none⟩

def set (self : SparseBitmap) (idx : ℕ) : SparseBitmap :=
  if self.totalBits ≤ idx then self
  else
    let chunk := (self.chunks (idx / kChunkBits)).getD .zero
    { self with
      chunks := Function.update self.chunks (idx / kChunkBits)
        (some (chunk.set (idx % kChunkBits))) }

def clear (self : SparseBitmap) (idx : ℕ) : SparseBitmap :=
  if self.totalBits ≤ idx then self
  else
    match self.chunks (idx / kChunkBits) with
    | none => self
    | some chunk =>
        let chunk := chunk.clear (idx % kChunkBits)
        { self with
          chunks := Function.update self.chunks (idx / kChunkBits)
            (if chunk.isEmpty then none else some chunk) }

def test (self : SparseBitmap) (idx : ℕ) : Bool :=
  if self.totalBits ≤ idx then false
  else
    match self.chunks (idx / kChunkBits) with
    | none => false
    | some chunk => chunk.test (idx % kChunkBits)

variable {b : SparseBitmap} {i j : ℕ}

@[simp] theorem totalBits_set : (b.set i).totalBits = b.totalBits := by
  rw [set]
  split_ifs <;> rfl

@[simp] theorem totalBits_clear : (b.clear i).totalBits = b.totalBits := by
  rw [clear]
  split_ifs
  · rfl
  · split <;> rfl

theorem test_create (totalBits : ℕ) : (create totalBits).test j = false := by
  rw [test, create]
  split_ifs <;> rfl

/-- The bit of a chunk, if there is one. -/
theorem test_of_lt (hj : j < b.totalBits) : b.test j =
    ((b.chunks (j / kChunkBits)).getD .zero).test (j % kChunkBits) := by
  rw [test, if_neg (not_le.mpr hj)]
  cases b.chunks (j / kChunkBits) with
  | none => exact (BitmapChunk.test_zero _).symm
  | some chunk => rfl

/-- A bit that is set is one that the bitmap has. -/
theorem lt_of_test (h : b.test j = true) : j < b.totalBits := by
  rw [test] at h
  by_contra hge
  rw [if_pos (not_lt.mp hge)] at h
  cases h

theorem mod_lt_chunk (i : ℕ) : i % kChunkBits < kChunkBits := Nat.mod_lt i (by decide)

/-- Bits are the same if chunk and place are. -/
theorem eq_of_chunk (hchunk : i / kChunkBits = j / kChunkBits) :
    i % kChunkBits = j % kChunkBits ↔ i = j := by
  refine ⟨fun h => ?_, fun h => by rw [h]⟩
  rw [← Nat.div_add_mod i kChunkBits, ← Nat.div_add_mod j kChunkBits, hchunk, h]

/-- **Setting a bit** that the bitmap has. -/
theorem test_set (b : SparseBitmap) (i j : ℕ) :
    (b.set i).test j = (decide (i = j ∧ j < b.totalBits) || b.test j) := by
  by_cases hj : j < b.totalBits
  · have hdec : decide (i = j ∧ j < b.totalBits) = decide (i = j) :=
      decide_eq_decide.mpr (and_iff_left hj)
    rw [test_of_lt (by rwa [totalBits_set]), test_of_lt hj, hdec, set]
    by_cases hi : i < b.totalBits
    · rw [if_neg (not_le.mpr hi)]
      dsimp only
      by_cases hchunk : i / kChunkBits = j / kChunkBits
      · rw [hchunk, Function.update_self, Option.getD_some,
          BitmapChunk.test_set (mod_lt_chunk i) (mod_lt_chunk j)]
        congr 1
        exact decide_eq_decide.mpr (eq_of_chunk hchunk)
      · rw [Function.update_of_ne (Ne.symm hchunk), decide_eq_false fun h => hchunk (by rw [h]),
          Bool.false_or]
    · have hne : i ≠ j := fun h => hi (h ▸ hj)
      rw [if_pos (not_lt.mp hi), decide_eq_false hne, Bool.false_or]
  · rw [test, totalBits_set, test, if_pos (not_lt.mp hj), if_pos (not_lt.mp hj),
      decide_eq_false fun h => hj h.2]
    rfl

/-- **Clearing a bit.** -/
theorem test_clear (b : SparseBitmap) (i j : ℕ) :
    (b.clear i).test j = (!decide (i = j) && b.test j) := by
  by_cases hj : j < b.totalBits
  · rw [test_of_lt (by rwa [totalBits_clear]), test_of_lt hj, clear]
    by_cases hi : i < b.totalBits
    · rw [if_neg (not_le.mpr hi)]
      by_cases hchunk : i / kChunkBits = j / kChunkBits
      · rw [hchunk]
        cases hold : b.chunks (j / kChunkBits) with
        | none =>
            rw [Option.getD_none, hold, Option.getD_none,
              BitmapChunk.test_zero, Bool.and_false]
        | some chunk =>
            have hclear := @BitmapChunk.test_clear chunk _ _ (mod_lt_chunk i) (mod_lt_chunk j)
            have hsame : decide (i % kChunkBits = j % kChunkBits) = decide (i = j) :=
              decide_eq_decide.mpr (eq_of_chunk hchunk)
            rw [hsame] at hclear
            dsimp only
            rw [Function.update_self, Option.getD_some]
            split_ifs with hempty
            · rw [Option.getD_none, BitmapChunk.test_zero, ← hclear,
                BitmapChunk.test_of_isEmpty hempty]
            · exact hclear
      · have hne : decide (i = j) = false := decide_eq_false fun h => hchunk (by rw [h])
        rw [hne, Bool.not_false, Bool.true_and]
        cases b.chunks (i / kChunkBits) with
        | none => rfl
        | some chunk =>
            dsimp only
            rw [Function.update_of_ne (Ne.symm hchunk)]
    · have hne : i ≠ j := fun h => hi (h ▸ hj)
      rw [if_pos (not_lt.mp hi), decide_eq_false hne]
      rfl
  · rw [test, totalBits_clear, test, if_pos (not_lt.mp hj), if_pos (not_lt.mp hj), Bool.and_false]

end SparseBitmap

/-! ### The pages of a file -/

/-- Where a record lies. -/
structure Extent where
  offsetIndex : UInt32
  pageCount : UInt16
  deriving DecidableEq, Repr

/-- The pages of a record. -/
def Extent.pages (e : Extent) : List UInt32 :=
  (List.range e.pageCount.toNat).map fun i => e.offsetIndex + UInt32.ofNat i

/-- The number of bits of the bitmap of a file: the pages of a file of the default size. -/
def kBitmapPages : ℕ := kDefaultFileSize / kPageSize

/-- `FileMetadata` with its bitmap. -/
structure PageTracking where
  counts : FileMetadata
  validBitmap : Option SparseBitmap

namespace PageTracking

/-- `maybe_create_bitmap`. Whether enough is garbage is a comparison of two `double`. -/
def maybeCreateBitmap (crosses : FileMetadata → Bool) (self : PageTracking) : PageTracking :=
  if self.validBitmap.isNone && crosses self.counts then
    { self with validBitmap := some (.create kBitmapPages) }
  else self

/-- `mark_valid`. -/
def markValid (self : PageTracking) (e : Extent) (bytes : UInt32) : PageTracking where
  validBitmap := self.validBitmap.map fun bitmap =>
    e.pages.foldl (fun b page => b.set page.toNat) bitmap
  counts := { self.counts with
    validEntries := self.counts.validEntries + 1
    validBytes := self.counts.validBytes + bytes.toNat }

/-- `mark_invalid`. -/
def markInvalid (crosses : FileMetadata → Bool) (self : PageTracking) (e : Extent)
    (bytes : UInt32) : PageTracking where
  validBitmap := (self.maybeCreateBitmap crosses).validBitmap.map fun bitmap =>
    e.pages.foldl (fun b page => b.clear page.toNat) bitmap
  counts := { self.counts with
    validEntries := self.counts.validEntries - 1
    validBytes :=
      if bytes.toNat ≤ self.counts.validBytes then self.counts.validBytes - bytes.toNat
      else self.counts.validBytes }

/-- `is_page_valid`; without a bitmap every page is. -/
def isPageValid (self : PageTracking) (offsetIndex : UInt32) : Bool :=
  match self.validBitmap with
  | none => true
  | some bitmap => bitmap.test offsetIndex.toNat

/-- `skip_invalid_pages` of a compaction at an offset of a file that ends at `srcEnd`. -/
def skipInvalidPages (self : PageTracking) (currentOffset srcEnd : ℕ) : ℕ :=
  if currentOffset < srcEnd then
    if self.isPageValid (UInt32.ofNat (currentOffset / kPageSize)) then currentOffset
    else self.skipInvalidPages (currentOffset + kPageSize) srcEnd
  else currentOffset
termination_by srcEnd - currentOffset
decreasing_by
  rw [kPageSize]
  omega

/-- Skipping goes forward. -/
theorem le_skipInvalidPages (self : PageTracking) (currentOffset srcEnd : ℕ) :
    currentOffset ≤ self.skipInvalidPages currentOffset srcEnd := by
  induction currentOffset using skipInvalidPages.induct self srcEnd with
  | case1 currentOffset hlt hvalid => rw [skipInvalidPages, if_pos hlt, if_pos hvalid]
  | case2 currentOffset hlt hinvalid ih =>
      rw [skipInvalidPages, if_pos hlt, if_neg hinvalid]
      omega
  | case3 currentOffset hge => rw [skipInvalidPages, if_neg hge]

variable {self : PageTracking} {page : UInt32} {e : Extent}

/-- Without a bitmap nothing is skipped. -/
theorem skipInvalidPages_of_none (h : self.validBitmap = none)
    (currentOffset srcEnd : ℕ) : self.skipInvalidPages currentOffset srcEnd = currentOffset := by
  have hvalid : self.isPageValid (UInt32.ofNat (currentOffset / kPageSize)) = true := by
    rw [isPageValid, h]
  rw [skipInvalidPages, if_pos hvalid, ite_self]

/-- **A compaction skips invalid pages only.** -/
theorem skipped_invalid (currentOffset srcEnd : ℕ) {k : ℕ}
    (hk : currentOffset + k * kPageSize < self.skipInvalidPages currentOffset srcEnd) :
    self.isPageValid (UInt32.ofNat ((currentOffset + k * kPageSize) / kPageSize)) = false := by
  induction currentOffset using skipInvalidPages.induct self srcEnd generalizing k with
  | case1 currentOffset hlt hvalid =>
      rw [skipInvalidPages, if_pos hlt, if_pos hvalid] at hk
      omega
  | case2 currentOffset hlt hinvalid ih =>
      rw [skipInvalidPages, if_pos hlt, if_neg hinvalid] at hk
      cases k with
      | zero => simpa using hinvalid
      | succ k =>
          have hnext : currentOffset + (k + 1) * kPageSize =
              currentOffset + kPageSize + k * kPageSize := by
            rw [Nat.add_mul, Nat.one_mul]
            omega
          rw [hnext] at hk ⊢
          exact ih hk
  | case3 currentOffset hge =>
      rw [skipInvalidPages, if_neg hge] at hk
      omega

/-! ### What the calls do to the pages -/

/-- Setting the bits of a list of pages. -/
theorem test_foldl_set (pages : List UInt32) (b : SparseBitmap) :
    (pages.foldl (fun b page => b.set page.toNat) b).totalBits = b.totalBits ∧
      ((pages.foldl (fun b page => b.set page.toNat) b).test page.toNat = true ↔
        (page ∈ pages ∧ page.toNat < b.totalBits) ∨ b.test page.toNat = true) := by
  induction pages generalizing b with
  | nil => simp
  | cons p pages ih =>
      obtain ⟨htotal, htest⟩ := ih (b.set p.toNat)
      rw [List.foldl_cons]
      refine ⟨htotal.trans SparseBitmap.totalBits_set, htest.trans ?_⟩
      rw [SparseBitmap.totalBits_set, SparseBitmap.test_set, Bool.or_eq_true, decide_eq_true_eq,
        List.mem_cons, UInt32.toNat_inj, or_and_right, eq_comm, ← or_assoc,
        or_comm (a := page ∈ pages ∧ _)]

/-- Clearing the bits of a list of pages. -/
theorem test_foldl_clear (pages : List UInt32) (b : SparseBitmap) :
    (pages.foldl (fun b page => b.clear page.toNat) b).totalBits = b.totalBits ∧
      ((pages.foldl (fun b page => b.clear page.toNat) b).test page.toNat = true ↔
        page ∉ pages ∧ b.test page.toNat = true) := by
  induction pages generalizing b with
  | nil => simp
  | cons p pages ih =>
      obtain ⟨htotal, htest⟩ := ih (b.clear p.toNat)
      rw [List.foldl_cons]
      refine ⟨htotal.trans SparseBitmap.totalBits_clear, htest.trans ?_⟩
      rw [SparseBitmap.test_clear, Bool.and_eq_true, Bool.not_eq_true', decide_eq_false_iff_not,
        List.mem_cons, not_or, UInt32.toNat_inj, eq_comm, and_assoc, and_left_comm]

end PageTracking

/-! ### Histories -/

/-- A file with its live records: those that were marked valid and not yet invalid. -/
structure TrackedFile where
  tracking : PageTracking
  live : List Extent

/-- What can happen to the pages of a file. -/
inductive TrackEvent
  | markValid (e : Extent) (bytes : UInt32)
  | markInvalid (e : Extent) (bytes : UInt32)

namespace TrackedFile

/-- The state after a call. -/
def step (crosses : FileMetadata → Bool) (s : TrackedFile) : TrackEvent → Option TrackedFile
  | .markValid e bytes => some ⟨s.tracking.markValid e bytes, e :: s.live⟩
  | .markInvalid e bytes => some ⟨s.tracking.markInvalid crosses e bytes, s.live.erase e⟩

/-- No live record yet, and no bitmap. -/
def start (counts : FileMetadata) : TrackedFile := ⟨⟨counts, none⟩, []⟩

/-- Records that share no page. -/
def Apart (e e' : Extent) : Prop := ∀ page ∈ e.pages, page ∉ e'.pages

/-- What the callers are to see to: live records are apart, and only they are overwritten. -/
def Admitted (s : TrackedFile) : TrackEvent → Prop
  | .markValid e _ => ∀ e' ∈ s.live, Apart e e'
  | .markInvalid e _ => e ∈ s.live

/-- **No page of a live record is invalid**, so a compaction skips none. -/
structure Sound (s : TrackedFile) : Prop where
  valid : ∀ e ∈ s.live, ∀ page ∈ e.pages, s.tracking.isPageValid page = true
  skips : ∀ currentOffset srcEnd k,
    currentOffset + k * kPageSize < s.tracking.skipInvalidPages currentOffset srcEnd →
      ∀ e ∈ s.live, UInt32.ofNat ((currentOffset + k * kPageSize) / kPageSize) ∉ e.pages

/-- The condition: when the bitmap is created, no record has a page but the one that is
overwritten; while it exists, records are written to the pages that it covers. -/
def Accounted (crosses : FileMetadata → Bool) (s : TrackedFile) : TrackEvent → Prop
  | .markValid e _ =>
      s.tracking.validBitmap ≠ none → ∀ page ∈ e.pages, page.toNat < kBitmapPages
  | .markInvalid e _ =>
      s.tracking.validBitmap = none → crosses s.tracking.counts = true →
        ∀ e' ∈ s.live.erase e, e'.pages = []

end TrackedFile

/-- The pages of a file as a machine; `crosses` tells when enough is garbage. -/
def trackMachine (crosses : FileMetadata → Bool) : Machine TrackedFile TrackEvent where
  step := TrackedFile.step crosses

namespace TrackedFile

variable {crosses : FileMetadata → Bool} {s s' : TrackedFile} {e : Extent}

theorem sound_iff_valid : s.Sound ↔
    ∀ e ∈ s.live, ∀ page ∈ e.pages, s.tracking.isPageValid page = true := by
  refine ⟨Sound.valid, fun h => ⟨h, fun currentOffset srcEnd k hk e he hmem => ?_⟩⟩
  have hinvalid := PageTracking.skipped_invalid currentOffset srcEnd hk
  rw [h e he _ hmem] at hinvalid
  cases hinvalid

/-- What the calls keep: a bitmap covers the pages of a file of the default size, and live
records are apart. -/
structure Inv (s : TrackedFile) : Prop where
  total : ∀ b, s.tracking.validBitmap = some b → b.totalBits = kBitmapPages
  apart : s.live.Pairwise Apart

theorem Apart.symm {e e' : Extent} (h : Apart e e') : Apart e' e :=
  fun page hpage hmem => h page hmem hpage

/-- A live record is apart from the others. -/
theorem Inv.apart_erase (h : s.Inv) (he : e ∈ s.live) : ∀ e' ∈ s.live.erase e, Apart e e' := by
  have hsymm : ∀ {e e' : Extent}, Apart e e' → Apart e' e := Apart.symm
  exact (List.pairwise_cons.mp (((List.perm_cons_erase he).pairwise_iff hsymm).mp h.apart)).1

/-- Which pages are valid after a record was written. -/
theorem valid_markValid_iff (h : s.Inv) (hvalid : ∀ e ∈ s.live, ∀ page ∈ e.pages,
    s.tracking.isPageValid page = true) (bytes : UInt32) :
    (∀ e' ∈ e :: s.live, ∀ page ∈ e'.pages,
      (s.tracking.markValid e bytes).isPageValid page = true) ↔
    (s.tracking.validBitmap ≠ none → ∀ page ∈ e.pages, page.toNat < kBitmapPages) := by
  cases hb : s.tracking.validBitmap with
  | none =>
      refine iff_of_true (fun e' _ page _ => ?_) fun hne => absurd rfl hne
      rw [PageTracking.isPageValid, PageTracking.markValid, hb]
      rfl
  | some b =>
      have htest (page : UInt32) : (s.tracking.markValid e bytes).isPageValid page = true ↔
          (page ∈ e.pages ∧ page.toNat < kBitmapPages) ∨ s.tracking.isPageValid page = true := by
        rw [PageTracking.isPageValid, PageTracking.markValid, hb, PageTracking.isPageValid, hb,
          ← h.total b hb]
        exact (PageTracking.test_foldl_set e.pages b).2
      have hlt {page : UInt32} (hpage : s.tracking.isPageValid page = true) :
          page.toNat < kBitmapPages := by
        rw [PageTracking.isPageValid, hb] at hpage
        rw [← h.total b hb]
        exact SparseBitmap.lt_of_test hpage
      simp only [List.forall_mem_cons, htest]
      constructor
      · rintro ⟨hnew, -⟩ - page hpage
        exact (hnew page hpage).elim And.right hlt
      · intro hnew
        exact ⟨fun page hpage => .inl ⟨hpage, hnew nofun page hpage⟩,
          fun e' he' page hpage => .inr (hvalid e' he' page hpage)⟩

/-- Which pages are valid after a record was overwritten. -/
theorem valid_markInvalid_iff (h : s.Inv) (he : e ∈ s.live) (hvalid : ∀ e ∈ s.live,
    ∀ page ∈ e.pages, s.tracking.isPageValid page = true) (bytes : UInt32) :
    (∀ e' ∈ s.live.erase e, ∀ page ∈ e'.pages,
      (s.tracking.markInvalid crosses e bytes).isPageValid page = true) ↔
    (s.tracking.validBitmap = none → crosses s.tracking.counts = true →
      ∀ e' ∈ s.live.erase e, e'.pages = []) := by
  cases hb : s.tracking.validBitmap with
  | none =>
      cases hcross : crosses s.tracking.counts with
      | false =>
          refine iff_of_true (fun e' _ page _ => ?_) fun _ hc => absurd hc Bool.false_ne_true
          rw [PageTracking.isPageValid, PageTracking.markInvalid, PageTracking.maybeCreateBitmap,
            hb, hcross, Bool.and_false, if_neg Bool.false_ne_true, hb]
          rfl
      | true =>
          -- the bitmap is new, and no page is in it
          have htest (page : UInt32) :
              (s.tracking.markInvalid crosses e bytes).isPageValid page = false := by
            rw [PageTracking.isPageValid, PageTracking.markInvalid,
              PageTracking.maybeCreateBitmap, hb, hcross, Option.isNone_none, Bool.and_self,
              if_pos rfl]
            refine Bool.eq_false_iff.mpr fun hset => ?_
            have hold := ((PageTracking.test_foldl_clear e.pages _).2.mp hset).2
            rw [SparseBitmap.test_create] at hold
            cases hold
          simp only [htest, Bool.false_eq_true]
          exact ⟨fun hnone _ _ e' he' => List.eq_nil_iff_forall_not_mem.mpr (hnone e' he'),
            fun hnone e' he' => List.eq_nil_iff_forall_not_mem.mp (hnone trivial trivial e' he')⟩
  | some b =>
      refine iff_of_true (fun e' he' page hpage => ?_) nofun
      have hold := hvalid e' (List.mem_of_mem_erase he') page hpage
      have hapart : page ∉ e.pages := fun hmem => h.apart_erase he e' he' page hmem hpage
      rw [PageTracking.isPageValid, hb] at hold
      rw [PageTracking.isPageValid, PageTracking.markInvalid, PageTracking.maybeCreateBitmap, hb,
        Option.isNone_some, Bool.false_and, if_neg Bool.false_ne_true, hb]
      exact (PageTracking.test_foldl_clear e.pages b).2.mpr ⟨hapart, hold⟩

/-- **What the calls keep.** -/
theorem Inv.step (h : s.Inv) {ev : TrackEvent} (ha : s.Admitted ev)
    (hs : s.step crosses ev = some s') : s'.Inv := by
  cases ev with
  | markValid e bytes =>
      obtain rfl := Option.some.inj hs
      refine ⟨fun b hb => ?_, List.pairwise_cons.mpr ⟨ha, h.apart⟩⟩
      obtain ⟨b', hb', rfl⟩ := Option.map_eq_some_iff.mp hb
      exact (@PageTracking.test_foldl_set 0 e.pages b').1.trans (h.total b' hb')
  | markInvalid e bytes =>
      obtain rfl := Option.some.inj hs
      refine ⟨fun b hb => ?_, h.apart.sublist List.erase_sublist⟩
      obtain ⟨b', hb', rfl⟩ := Option.map_eq_some_iff.mp hb
      refine (@PageTracking.test_foldl_clear 0 e.pages b').1.trans ?_
      rw [PageTracking.maybeCreateBitmap] at hb'
      split_ifs at hb'
      · obtain rfl := Option.some.inj hb'
        rfl
      · exact h.total b' hb'

/-- When a call leaves the pages of all live records valid. -/
theorem Inv.sound_step_iff (h : s.Inv) (hsound : s.Sound) {ev : TrackEvent} (ha : s.Admitted ev)
    (hs : s.step crosses ev = some s') : s'.Sound ↔ s.Accounted crosses ev := by
  rw [sound_iff_valid] at hsound ⊢
  cases ev with
  | markValid e bytes =>
      obtain rfl := Option.some.inj hs
      exact valid_markValid_iff h hsound bytes
  | markInvalid e bytes =>
      obtain rfl := Option.some.inj hs
      exact valid_markInvalid_iff h ha hsound bytes

/-- **When the bitmap is sound**: in a history in which records are apart while they are live
and only live records are overwritten, no page of a live record is ever invalid, exactly when
every call meets the condition. -/
theorem sound_iff (crosses : FileMetadata → Bool) (counts : FileMetadata) {evs : List TrackEvent}
    (ha : (trackMachine crosses).Meets Admitted (start counts) evs) :
    (trackMachine crosses).Always Sound (start counts) evs ↔
      (trackMachine crosses).Meets (Accounted crosses) (start counts) evs := by
  have hkeeps : ∀ (s : TrackedFile) ev s', s.Inv → s.Admitted ev →
      (trackMachine crosses).step s ev = some s' → s'.Inv :=
    fun _ _ _ h ha hs => h.step ha hs
  refine (trackMachine crosses).always_iff_meets_of hkeeps
    (fun _ _ _ h hsound ha hs => h.sound_step_iff hsound ha hs) ?_ ha
    ⟨nofun, List.Pairwise.nil⟩ (sound_iff_valid.mpr nofun)
  intro s ev hs
  cases ev with
  | markValid | markInvalid => cases hs

/-- Enough is garbage, in exact arithmetic. -/
def garbageCrosses (counts : FileMetadata) : Bool :=
  decide (kBitmapCreationThreshold ≤ counts.garbageRatio)

/-- A file of three pages behind its header. -/
def threePages : FileMetadata := ⟨1, .kActive, 0, 0, 12288, 0⟩

/-- Two records are written, and the first one is overwritten. -/
def overwriteFirst : List TrackEvent :=
  [.markValid ⟨1, 1⟩ 4096, .markValid ⟨2, 1⟩ 4096, .markInvalid ⟨1, 1⟩ 4096]

/-- The records are apart, and the one that is overwritten is live. -/
theorem admitted_overwriteFirst : (trackMachine garbageCrosses).Meets Admitted
    (start threePages) overwriteFirst := by
  have hpages : Extent.pages ⟨2, 1⟩ = [2] ∧ Extent.pages ⟨1, 1⟩ = [1] := by decide +kernel
  have hapart : Apart ⟨2, 1⟩ ⟨1, 1⟩ := by
    intro page hpage hmem
    rw [hpages.1, List.mem_singleton] at hpage
    rw [hpages.2, List.mem_singleton, hpage] at hmem
    exact absurd hmem (by decide)
  refine ⟨nofun, fun s₁ h₁ => ?_⟩
  obtain rfl := Option.some.inj h₁
  refine ⟨fun e' he' => ?_, fun s₂ h₂ => ?_⟩
  · rw [List.mem_singleton.mp he']
    exact hapart
  · obtain rfl := Option.some.inj h₂
    exact ⟨List.mem_cons_of_mem _ (List.mem_singleton_self _), fun _ _ => trivial⟩

/-- **A live page is skipped**: with a third of the file garbage the bitmap is created, and the
second record is not in it. -/
theorem live_page_skipped :
    (trackMachine garbageCrosses).Meets Admitted (start threePages) overwriteFirst ∧
    ∃ s, (trackMachine garbageCrosses).run (start threePages) overwriteFirst = some s ∧
      ⟨2, 1⟩ ∈ s.live ∧ s.tracking.isPageValid 2 = false ∧
      s.tracking.skipInvalidPages 8192 12288 = 12288 ∧ ¬ s.Sound := by
  have hrun : ((trackMachine garbageCrosses).run (start threePages) overwriteFirst).map
      (fun s => (s.live, s.tracking.isPageValid 2)) = some ([⟨2, 1⟩], false) := by
    decide +kernel
  obtain ⟨s, hs, heq⟩ := Option.map_eq_some_iff.mp hrun
  obtain ⟨hlive, hinvalid⟩ := Prod.mk.inj heq
  have hmem : ⟨2, 1⟩ ∈ s.live := hlive ▸ List.mem_singleton_self _
  refine ⟨admitted_overwriteFirst, s, hs, hmem, hinvalid, ?_, fun hsound => ?_⟩
  · have hpage : UInt32.ofNat (8192 / kPageSize) = 2 := rfl
    rw [PageTracking.skipInvalidPages, if_pos (by decide), hpage, hinvalid,
      if_neg Bool.false_ne_true, PageTracking.skipInvalidPages, if_neg (by decide)]
    rfl
  · rw [hsound.valid _ hmem 2 (by decide +kernel)] at hinvalid
    cases hinvalid

/-- Without an overwrite every page stays valid. -/
theorem sound_two_records :
    (trackMachine garbageCrosses).Always Sound (start threePages) (overwriteFirst.take 2) := by
  have hadmitted : (trackMachine garbageCrosses).Meets Admitted (start threePages)
      (overwriteFirst.take 2) :=
    ⟨admitted_overwriteFirst.1, fun s hs =>
      ⟨(admitted_overwriteFirst.2 s hs).1, fun _ _ => trivial⟩⟩
  refine (sound_iff garbageCrosses threePages hadmitted).mpr ⟨fun h => absurd rfl h, ?_⟩
  intro s hs
  obtain rfl := Option.some.inj hs
  exact ⟨fun h => absurd rfl h, fun _ _ => trivial⟩

end TrackedFile

end SpdkKv
