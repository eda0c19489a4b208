import Mathlib.Algebra.Order.Group.Multiset
import Mathlib.Data.Multiset.AddSub
import Mathlib.Data.Multiset.UnionInter
import Mathlib.Tactic.Abel
import SpdkKv.AsyncEngine

/-!
# Records in Append Buffers

Every append buffer is in one place: it is the active one, waits in the submit ring, is free,
or is out, waiting for a file or for its IO. The records in a buffer lie one behind the
other, from page boundary to page boundary, in the part that is used.

## Main results

* `BuffersOk`: the invariant of the buffers and the records in them.
* `BuffersOk.place`: a record that gets a slot lies behind the others.
* `BuffersOk.release`: a buffer that comes back is empty.
-/

namespace SpdkKv

/-! ### Where the buffers are -/

namespace AppendBufferManager

variable {self : AppendBufferManager}

/-- The buffers that the manager has. -/
def held (self : AppendBufferManager) : Multiset ℕ :=
  ↑self.activeBuffer.toList + ↑self.submitRing + ↑self.completeRing

theorem coe_ringEnqueue_le (ring : List ℕ) (b : ℕ) :
    (↑(ringEnqueue ring b) : Multiset ℕ) ≤ ↑ring + {b} := by
  rw [ringEnqueue]
  split_ifs
  · rw [← Multiset.coe_singleton, Multiset.coe_add]
  · exact Multiset.le_add_right _ _

theorem coe_head?_add_tail (ring : List ℕ) :
    (↑ring.head?.toList + ↑ring.tail : Multiset ℕ) = ↑ring := by
  cases ring <;> rfl

/-- The next free buffer becomes the active one. -/
theorem held_refill (self : AppendBufferManager) :
    self.refill.held = ↑self.submitRing + ↑self.completeRing := by
  rw [held, refill, ← coe_head?_add_tail self.completeRing]
  abel

theorem held_submitCurrentBuffer_le (self : AppendBufferManager) :
    self.submitCurrentBuffer.held ≤ self.held := by
  rw [submitCurrentBuffer]
  split
  · exact le_rfl
  · next b hb =>
      split_ifs
      · exact le_rfl
      · rw [held_refill, held, hb, add_comm (↑(some b).toList : Multiset ℕ)]
        exact add_le_add_left (coe_ringEnqueue_le _ _) _

theorem held_returnBuffer_le (self : AppendBufferManager) (b : ℕ) :
    (self.returnBuffer b).held ≤ self.held + {b} := by
  have hring := add_le_add_right (coe_ringEnqueue_le self.completeRing b) ↑self.submitRing
  rw [returnBuffer]
  dsimp only
  split_ifs with hactive
  · rw [held_refill, held, Option.isNone_iff_eq_none.mp hactive]
    refine hring.trans (le_of_eq ?_)
    simp only [Option.toList_none, Multiset.coe_nil]
    abel
  · rw [held, held, add_assoc, add_assoc, add_assoc]
    exact add_le_add_right hring _

/-- `try_expand` at most adds the buffer that follows. -/
theorem held_tryExpand_le (self : AppendBufferManager) :
    self.tryExpand.1.held ≤ self.held + {self.currentBufferCount} := by
  have hring := add_le_add_right
    (coe_ringEnqueue_le self.completeRing self.currentBufferCount) ↑self.submitRing
  rw [tryExpand]
  split_ifs
  · exact Multiset.le_add_right _ _
  · dsimp only
    split_ifs with hactive
    · rw [held_refill, held, Option.isNone_iff_eq_none.mp hactive]
      refine hring.trans (le_of_eq ?_)
      simp only [Option.toList_none, Multiset.coe_nil]
      abel
    · rw [held, held, add_assoc, add_assoc, add_assoc]
      exact add_le_add_right hring _

theorem held_init (count : ℕ) :
    (init count).held = ↑((List.range count).take kMaxBufferCount) := by
  rw [held, init, ← coe_head?_add_tail ((List.range count).take kMaxBufferCount)]
  simp only [Multiset.coe_nil]
  abel

@[simp] theorem buffers_refill (self : AppendBufferManager) :
    self.refill.buffers = self.buffers := rfl

@[simp] theorem currentBufferCount_refill (self : AppendBufferManager) :
    self.refill.currentBufferCount = self.currentBufferCount := rfl

@[simp] theorem buffers_submitCurrentBuffer (self : AppendBufferManager) :
    self.submitCurrentBuffer.buffers = self.buffers := by
  rw [submitCurrentBuffer]
  split
  · rfl
  · split_ifs <;> rfl

@[simp] theorem currentBufferCount_submitCurrentBuffer (self : AppendBufferManager) :
    self.submitCurrentBuffer.currentBufferCount = self.currentBufferCount := by
  rw [submitCurrentBuffer]
  split
  · rfl
  · split_ifs <;> rfl

@[simp] theorem buffers_returnBuffer (self : AppendBufferManager) (b : ℕ) :
    (self.returnBuffer b).buffers = Function.update self.buffers b ⟨0, 0⟩ := by
  rw [returnBuffer]
  dsimp only
  split_ifs <;> rfl

@[simp] theorem currentBufferCount_returnBuffer (self : AppendBufferManager) (b : ℕ) :
    (self.returnBuffer b).currentBufferCount = self.currentBufferCount := by
  rw [returnBuffer]
  dsimp only
  split_ifs <;> rfl

end AppendBufferManager

/-! ### The records in a buffer -/

/-- The end of a record in its buffer. -/
def BufferedPendingWrite.stop (w : BufferedPendingWrite) : ℕ := w.bufferOffset + w.alignedSize

/-- A record begins at a page boundary, and its pages are counted. -/
structure BufferedPendingWrite.Paged (w : BufferedPendingWrite) : Prop where
  offset : w.bufferOffset % kPageSize = 0
  size_pos : 0 < w.alignedSize
  pageCount : w.pageCount = UInt16.ofNat (w.alignedSize / kPageSize)

/-- The records lie one behind the other, before `used`. -/
structure Laid (ws : List BufferedPendingWrite) (used : ℕ) : Prop where
  paged : ∀ w ∈ ws, w.Paged
  stop_le : ∀ w ∈ ws, w.stop ≤ used
  ordered : ws.Pairwise fun w w' => w.stop ≤ w'.bufferOffset

theorem Laid.nil (used : ℕ) : Laid [] used := ⟨by simp, by simp, .nil⟩

/-- Nothing lies in an empty buffer. -/
theorem Laid.eq_nil {ws : List BufferedPendingWrite} (h : Laid ws 0) : ws = [] := by
  match ws, h with
  | [], _ => rfl
  | w :: ws, h =>
      have hpos := (h.paged w List.mem_cons_self).size_pos
      have hle := h.stop_le w List.mem_cons_self
      rw [BufferedPendingWrite.stop] at hle
      omega

/-- A further record behind the others. -/
theorem Laid.append {ws : List BufferedPendingWrite} {used : ℕ} (h : Laid ws used)
    {w : BufferedPendingWrite} (hw : w.Paged) (hoff : w.bufferOffset = used) :
    Laid (ws ++ [w]) w.stop where
  paged := by
    intro v hv
    rcases List.mem_append.mp hv with hv | hv
    · exact h.paged v hv
    · rwa [List.mem_singleton.mp hv]
  stop_le := by
    intro v hv
    rcases List.mem_append.mp hv with hv | hv
    · have := h.stop_le v hv
      rw [BufferedPendingWrite.stop.eq_def w, hoff]
      omega
    · rw [List.mem_singleton.mp hv]
  ordered := List.pairwise_append.mpr ⟨h.ordered, List.pairwise_singleton _ _, fun v hv u hu => by
    rw [List.mem_singleton.mp hu, hoff]
    exact h.stop_le v hv⟩

/-- A buffer and the records in it. -/
structure BufferOk (b : AppendBuffer) (ws : List BufferedPendingWrite) : Prop where
  laid : Laid ws b.used
  used_le : b.used ≤ kAppendBufferSize
  used_paged : b.used % kPageSize = 0

theorem BufferOk.empty : BufferOk ⟨0, 0⟩ [] := ⟨.nil 0, Nat.zero_le _, rfl⟩

/-! ### The invariant -/

/-- The buffers, with the records in them; `out` are the buffers that the manager gave
away. -/
structure BuffersOk (m : AppendBufferManager) (writes : ℕ → List BufferedPendingWrite)
    (out : Multiset ℕ) : Prop where
  /-- Every buffer is in one place. -/
  nodup : (m.held + out).Nodup
  lt : ∀ b ∈ m.held + out, b < m.currentBufferCount
  /-- A buffer that does not exist yet holds no record. -/
  fresh : ∀ b, m.currentBufferCount ≤ b → writes b = []
  buffer : ∀ b, BufferOk (m.buffers b) (writes b)

namespace BuffersOk

variable {m : AppendBufferManager} {writes : ℕ → List BufferedPendingWrite} {out : Multiset ℕ}

/-- The buffers right after `initialize`. -/
theorem init (count : ℕ) : BuffersOk (.init count) (fun _ => []) 0 where
  nodup := by
    rw [add_zero, AppendBufferManager.held_init]
    exact Multiset.coe_nodup.mpr (List.nodup_range.sublist (List.take_sublist _ _))
  lt := by
    intro b hb
    rw [add_zero, AppendBufferManager.held_init] at hb
    exact List.mem_range.mp (List.mem_of_mem_take (Multiset.mem_coe.mp hb))
  fresh := fun _ _ => rfl
  buffer := fun _ => .empty

/-- Buffers change their places. -/
theorem move (h : BuffersOk m writes out) {m' : AppendBufferManager} {out' : Multiset ℕ}
    (hle : m'.held + out' ≤ m.held + out) (hb : m'.buffers = m.buffers)
    (hc : m'.currentBufferCount = m.currentBufferCount) : BuffersOk m' writes out' where
  nodup := Multiset.nodup_of_le hle h.nodup
  lt := fun b hb => hc ▸ h.lt b (Multiset.mem_of_le hle hb)
  fresh := fun b hle => h.fresh b (hc ▸ hle)
  buffer := fun b => hb ▸ h.buffer b

theorem submitCurrentBuffer (h : BuffersOk m writes out) :
    BuffersOk m.submitCurrentBuffer writes out :=
  h.move (add_le_add_left (m.held_submitCurrentBuffer_le) out) (by simp) (by simp)

/-- The next buffer leaves the submit ring. -/
theorem take (h : BuffersOk m writes out) {b : ℕ} {rest : List ℕ}
    (hring : m.submitRing = b :: rest) :
    BuffersOk { m with submitRing := rest } writes (out + {b}) := by
  refine h.move (le_of_eq ?_) rfl rfl
  rw [AppendBufferManager.held, AppendBufferManager.held, hring, ← Multiset.cons_coe,
    ← Multiset.singleton_add]
  abel

/-- A buffer that is out is forgotten. -/
theorem forget (h : BuffersOk m writes out) {out' : Multiset ℕ} (hle : out' ≤ out) :
    BuffersOk m writes out' :=
  h.move (add_le_add_right hle _) rfl rfl

/-- A buffer that comes back is empty. -/
theorem release {b : ℕ} (h : BuffersOk m writes (out + {b})) :
    BuffersOk (m.returnBuffer b) (fun x => if x = b then [] else writes x) out where
  nodup := by
    refine Multiset.nodup_of_le ?_ h.nodup
    rw [add_comm out, ← add_assoc]
    exact add_le_add_left (m.held_returnBuffer_le b) out
  lt := by
    intro x hx
    rw [AppendBufferManager.currentBufferCount_returnBuffer]
    refine h.lt x (Multiset.mem_of_le ?_ hx)
    rw [add_comm out, ← add_assoc]
    exact add_le_add_left (m.held_returnBuffer_le b) out
  fresh := by
    intro x hx
    split_ifs
    · rfl
    · exact h.fresh x (by simpa using hx)
  buffer := by
    intro x
    rw [AppendBufferManager.buffers_returnBuffer]
    by_cases hx : x = b
    · rw [if_pos hx, hx, Function.update_self]
      exact .empty
    · rw [if_neg hx, Function.update_of_ne hx]
      exact h.buffer x

/-- A further buffer is made. -/
theorem tryExpand (h : BuffersOk m writes out) : BuffersOk m.tryExpand.1 writes out := by
  by_cases hfull : kMaxBufferCount ≤ m.currentBufferCount
  · rw [AppendBufferManager.tryExpand, if_pos hfull]
    exact h
  · have hcount : m.tryExpand.1.currentBufferCount = m.currentBufferCount + 1 := by
      rw [AppendBufferManager.tryExpand, if_neg hfull]
      dsimp only
      split_ifs <;> rfl
    have hbuffers : m.tryExpand.1.buffers =
        Function.update m.buffers m.currentBufferCount ⟨0, 0⟩ := by
      rw [AppendBufferManager.tryExpand, if_neg hfull]
      dsimp only
      split_ifs <;> rfl
    have hheld : m.tryExpand.1.held + out ≤ m.held + out + {m.currentBufferCount} := by
      rw [add_right_comm]
      exact add_le_add_left m.held_tryExpand_le out
    have hnew : m.currentBufferCount ∉ m.held + out := fun hmem => (h.lt _ hmem).false
    refine ⟨?_, ?_, ?_, ?_⟩
    · refine Multiset.nodup_of_le hheld (Multiset.nodup_add.mpr ⟨h.nodup, by simp, ?_⟩)
      rw [Multiset.disjoint_singleton]
      exact hnew
    · intro b hb
      rw [hcount]
      rcases Multiset.mem_add.mp (Multiset.mem_of_le hheld hb) with hb | hb
      · exact (h.lt b hb).trans (Nat.lt_succ_self _)
      · rw [Multiset.mem_singleton.mp hb]
        exact Nat.lt_succ_self _
    · intro b hb
      rw [hcount] at hb
      exact h.fresh b ((Nat.le_succ _).trans hb)
    · intro b
      rw [hbuffers]
      by_cases hb : b = m.currentBufferCount
      · rw [hb, h.fresh _ le_rfl, Function.update_self]
        exact .empty
      · rw [Function.update_of_ne hb]
        exact h.buffer b

theorem checkBackpressure (h : BuffersOk m writes out) :
    BuffersOk m.checkBackpressure.1 writes out := by
  have hflag : ∀ (m' : AppendBufferManager) (active : Bool), BuffersOk m' writes out →
      BuffersOk { m' with backpressureActive := active } writes out :=
    fun m' active h => h.move le_rfl rfl rfl
  rw [AppendBufferManager.checkBackpressure]
  dsimp only
  split_ifs
  · exact hflag _ _ h
  · exact h
  · exact h.tryExpand
  · exact hflag _ _ h.tryExpand
  · exact h

/-- A buffer that is out is not touched. -/
theorem buffers_checkBackpressure (h : BuffersOk m writes out) {b : ℕ} (hb : b ∈ out) :
    m.checkBackpressure.1.buffers b = m.buffers b := by
  have hne : b ≠ m.currentBufferCount :=
    (h.lt b (Multiset.mem_add.mpr (.inr hb))).ne
  have hexpand : m.tryExpand.1.buffers b = m.buffers b := by
    rw [AppendBufferManager.tryExpand]
    split_ifs
    · rfl
    · dsimp only
      split_ifs <;> exact Function.update_of_ne hne _ _
  rw [AppendBufferManager.checkBackpressure]
  dsimp only
  split_ifs
  · rfl
  · rfl
  · exact hexpand
  · exact hexpand
  · rfl

/-- A slot is taken in a buffer. -/
structure Reserved (m m' : AppendBufferManager) (len : ℕ) (slot : ℕ × ℕ) : Prop where
  active : m.activeBuffer = some slot.1
  offset : slot.2 = (m.buffers slot.1).used
  fits : slot.2 + len ≤ kAppendBufferSize
  eq : m' = { m with
    buffers := Function.update m.buffers slot.1
      ⟨slot.2 + len, (m.buffers slot.1).entryCount + 1⟩ }

theorem reserve_eq {len : ℕ} {slot : ℕ × ℕ} {m' : AppendBufferManager}
    (hr : m.reserve len = (m', some slot)) : Reserved m m' len slot := by
  rw [AppendBufferManager.reserve] at hr
  split at hr
  · cases hr
  · next b hb =>
      dsimp only at hr
      split_ifs at hr with hfull
      · cases hr
      · obtain ⟨rfl, hslot⟩ := Prod.mk.inj hr
        obtain rfl := Option.some.inj hslot
        exact ⟨hb, rfl, Nat.le_of_not_lt fun hlt => hfull (.inr hlt), rfl⟩

theorem reserve_none {len : ℕ} {m' : AppendBufferManager}
    (hr : m.reserve len = (m', none)) : m' = m := by
  rw [AppendBufferManager.reserve] at hr
  split at hr
  · exact (Prod.mk.inj hr).1.symm
  · dsimp only at hr
    split_ifs at hr
    · exact (Prod.mk.inj hr).1.symm
    · cases (Prod.mk.inj hr).2

/-- **A record that gets a slot lies behind the others.** -/
theorem place (h : BuffersOk m writes out) {m' : AppendBufferManager} {len : ℕ}
    {slot : ℕ × ℕ} (hr : Reserved m m' len slot) (hlen : len % kPageSize = 0)
    {w : BufferedPendingWrite} (hoff : w.bufferOffset = slot.2) (hsize : w.alignedSize = len)
    (hpos : 0 < len) (hcount : w.pageCount = UInt16.ofNat (len / kPageSize)) :
    BuffersOk m' (fun x => if x = slot.1 then writes x ++ [w] else writes x) out := by
  obtain ⟨hactive, hused, hfits, rfl⟩ := hr
  have hbuffer := h.buffer slot.1
  have hw : w.Paged := ⟨by rw [hoff, hused, hbuffer.used_paged], by omega, by rw [hsize, hcount]⟩
  have hstop : w.stop = slot.2 + len := by rw [BufferedPendingWrite.stop, hoff, hsize]
  have hmem : slot.1 ∈ m.held + out := by
    rw [AppendBufferManager.held, hactive]
    simp
  refine ⟨h.nodup, h.lt, ?_, ?_⟩
  · intro b hb
    have hne : b ≠ slot.1 := by
      rintro rfl
      exact absurd (h.lt _ hmem) (Nat.not_lt.mpr hb)
    rw [if_neg hne]
    exact h.fresh b hb
  · intro b
    dsimp only
    by_cases hb : b = slot.1
    · rw [if_pos hb, hb, Function.update_self]
      refine ⟨hstop ▸ hbuffer.laid.append hw (hoff.trans hused), hfits, ?_⟩
      rw [Nat.add_mod, hlen, hused, hbuffer.used_paged]
      rfl
    · rw [if_neg hb, Function.update_of_ne hb]
      exact h.buffer b

/-- A slot is never taken in a buffer that is out. -/
theorem Reserved.buffers_out {m' : AppendBufferManager} {len : ℕ} {slot : ℕ × ℕ}
    (hr : Reserved m m' len slot) (h : BuffersOk m writes out) {b : ℕ} (hb : b ∈ out) :
    m'.buffers b = m.buffers b := by
  obtain ⟨hactive, -, -, rfl⟩ := hr
  refine Function.update_of_ne ?_ _ _
  rintro rfl
  refine Multiset.disjoint_left.mp (Multiset.nodup_add.mp h.nodup).2.2 ?_ hb
  rw [AppendBufferManager.held, hactive]
  simp

/-- `reserve_with_backpressure` finds no room: the flag is recomputed. -/
theorem reserveWithBackpressure_error {m m' : AppendBufferManager} {len : ℕ} {error : KvError}
    (hr : m.reserveWithBackpressure len = (m', .error error)) : m' = m.checkBackpressure.1 := by
  rw [AppendBufferManager.reserveWithBackpressure] at hr
  generalize m.checkBackpressure = c at hr
  obtain ⟨m₁, active⟩ := c
  dsimp only at hr
  split_ifs at hr
  · exact (Prod.mk.inj hr).1.symm
  · split at hr
    · next hres =>
        rw [← (Prod.mk.inj hr).1]
        exact reserve_none hres
    · cases (Prod.mk.inj hr).2

/-- `reserve_with_backpressure` finds room, in the active buffer. -/
theorem reserveWithBackpressure_ok {m m' : AppendBufferManager} {len : ℕ} {slot : ℕ × ℕ}
    (hr : m.reserveWithBackpressure len = (m', .ok slot)) :
    Reserved m.checkBackpressure.1 m' len slot := by
  rw [AppendBufferManager.reserveWithBackpressure] at hr
  generalize m.checkBackpressure = c at hr
  obtain ⟨m₁, active⟩ := c
  dsimp only at hr
  split_ifs at hr
  · cases (Prod.mk.inj hr).2
  · split at hr
    · cases (Prod.mk.inj hr).2
    · next hres =>
        obtain ⟨rfl, hslot⟩ := Prod.mk.inj hr
        cases hslot
        exact reserve_eq hres

/-- `reserve_with_backpressure` finds no room. -/
theorem reserve_error (h : BuffersOk m writes out) {m' : AppendBufferManager} {len : ℕ}
    {error : KvError} (hr : m.reserveWithBackpressure len = (m', .error error)) :
    BuffersOk m' writes out ∧ ∀ b ∈ out, m'.buffers b = m.buffers b := by
  obtain rfl := reserveWithBackpressure_error hr
  exact ⟨h.checkBackpressure, fun b => h.buffers_checkBackpressure⟩

/-- `reserve_with_backpressure` finds room. -/
theorem reserve_ok (h : BuffersOk m writes out) {m' : AppendBufferManager} {len : ℕ}
    {slot : ℕ × ℕ} (hr : m.reserveWithBackpressure len = (m', .ok slot)) :
    ∃ m₁, BuffersOk m₁ writes out ∧ Reserved m₁ m' len slot ∧
      ∀ b ∈ out, m'.buffers b = m.buffers b := by
  have hreserved := reserveWithBackpressure_ok hr
  exact ⟨_, h.checkBackpressure, hreserved, fun b hb =>
    (hreserved.buffers_out h.checkBackpressure hb).trans (h.buffers_checkBackpressure hb)⟩

end BuffersOk

end SpdkKv
