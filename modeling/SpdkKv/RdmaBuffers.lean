import SpdkKv.BufferOwners
import SpdkKv.SlotEpochs

/-!
# Buffers with Slots in Them

What becomes of a buffer in which slots were taken, or in which records wait: it stays the
active one, waits in the submit ring or is being written, until it is reset. The records in a
buffer need not lie one behind the other here, since a client may commit its slots in any order
or not at all.

## Main results

* `RdmaEngine.Keeps`: the invariant of the buffers.
* `RdmaEngine.Keeps.mem`: a buffer with a slot or a record in it is in use.
* `RdmaEngine.Keeps.resetBuffer`: nothing is in a buffer that was reset.
* `RdmaEngine.allocRdmaSlot_ok`: where a slot lies.
-/

namespace SpdkKv

namespace RdmaEngine

variable {s s' : RdmaEngine} {holds holds' : ℕ → Prop}

/-- Buffers with slots in them, and those that hold something else, are in use. -/
def Keeps (s : RdmaEngine) (holds : ℕ → Prop) : Prop :=
  ∃ writes, BuffersKept s.manager writes (s.writing : Multiset ℕ) ∧
    ∀ b, holds b ∨ s.reservations b ≠ [] → writes b ≠ []

theorem keeps_start (bufferCount : ℕ) : (start bufferCount).Keeps fun _ => False :=
  ⟨_, .init bufferCount, fun _ h => h.elim False.elim fun h => absurd rfl h⟩

/-- The submitted buffer that `submit_buffer_io` is given next, unless it is empty. -/
def nextBuffer (self : RdmaEngine) : Option ℕ :=
  self.manager.submitRing.head?.filter fun b => !(self.manager.buffers b).isEmpty

namespace Keeps

/-- Fewer buffers hold something. -/
theorem mono (h : s.Keeps holds) (hle : ∀ b, holds' b → holds b) : s.Keeps holds' := by
  obtain ⟨writes, hw, hkeep⟩ := h
  exact ⟨writes, hw, fun b hb => hkeep b (hb.imp_left (hle b))⟩

/-- **A buffer that holds something is in use.** -/
theorem mem (h : s.Keeps holds) {b : ℕ} (hb : holds b) :
    b ∈ s.manager.filling + ↑s.writing := by
  obtain ⟨writes, hw, hkeep⟩ := h
  exact hw.kept b (hkeep b (.inl hb))

/-- An empty buffer holds nothing. -/
theorem not_of_isEmpty (h : s.Keeps holds) {b : ℕ}
    (hempty : (s.manager.buffers b).isEmpty = true) : ¬ holds b := fun hb => by
  obtain ⟨writes, hw, hkeep⟩ := h
  have hlaid := (hw.ok.buffer b).laid
  rw [show (s.manager.buffers b).used = 0 from beq_iff_eq.mp hempty] at hlaid
  exact hkeep b (.inl hb) hlaid.eq_nil

/-- A buffer with a slot in it holds something. -/
theorem of_reservation (h : s.Keeps holds) {b : ℕ} (hb : s.reservations b ≠ []) :
    s.Keeps fun x => holds x ∨ x = b := by
  obtain ⟨writes, hw, hkeep⟩ := h
  refine ⟨writes, hw, fun x hx => ?_⟩
  rcases hx with (hx | rfl) | hx
  · exact hkeep x (.inl hx)
  · exact hkeep x (.inr hb)
  · exact hkeep x (.inr hx)

/-- The active buffer is not being written. -/
theorem active_notMem (h : s.Keeps holds) {b : ℕ} (hb : s.manager.activeBuffer = some b) :
    b ∉ s.writing := fun hmem => by
  obtain ⟨writes, hw, -⟩ := h
  refine Multiset.disjoint_left.mp (Multiset.nodup_add.mp hw.ok.nodup).2.2 ?_
    (Multiset.mem_coe.mpr hmem)
  rw [AppendBufferManager.held, hb]
  simp

/-- Nor is one in the submit ring. -/
theorem ring_notMem (h : s.Keeps holds) {b : ℕ} (hb : b ∈ s.manager.submitRing) :
    b ∉ s.writing := fun hmem => by
  obtain ⟨writes, hw, -⟩ := h
  refine Multiset.disjoint_left.mp (Multiset.nodup_add.mp hw.ok.nodup).2.2 ?_
    (Multiset.mem_coe.mpr hmem)
  rw [AppendBufferManager.held]
  simp [hb]

/-- The manager changes. -/
theorem withManager (h : s.Keeps holds) {manager : AppendBufferManager}
    (hm : ∀ writes, BuffersKept s.manager writes (s.writing : Multiset ℕ) →
      BuffersKept manager writes (s.writing : Multiset ℕ)) :
    Keeps { s with manager := manager } holds := by
  obtain ⟨writes, hw, hkeep⟩ := h
  exact ⟨writes, hm writes hw, hkeep⟩

theorem submitCurrentBuffer (h : s.Keeps holds) :
    Keeps { s with manager := s.manager.submitCurrentBuffer } holds :=
  h.withManager fun _ hw => hw.submitCurrentBuffer

theorem submitIfFull (h : s.Keeps holds) : s.submitIfFull.Keeps holds := by
  rw [RdmaEngine.submitIfFull]
  split
  · exact h
  · split_ifs
    · exact h.submitCurrentBuffer
    · exact h

theorem putRdma (h : s.Keeps holds) (valueOffset : ℕ) : (s.putRdma valueOffset).Keeps holds := by
  rw [RdmaEngine.putRdma]
  split_ifs
  · exact h
  · exact h.submitIfFull

/-- **A reservation** is in its buffer. -/
theorem reserve (h : s.Keeps holds) {manager : AppendBufferManager} {valueLen : ℕ}
    {slot : ℕ × ℕ}
    (hr : s.manager.reserveWithBackpressure (entrySize valueLen) = (manager, .ok slot)) :
    Keeps { s with manager := manager } fun b => holds b ∨ b = slot.1 := by
  obtain ⟨writes, hw, hkeep⟩ := h
  have hpos : 0 < entrySize valueLen := by
    have := entrySize_ge valueLen
    omega
  let w : BufferedPendingWrite :=
    ⟨0, 0, slot.2, entrySize valueLen, UInt16.ofNat (entrySize valueLen / kPageSize), 0⟩
  refine ⟨_, hw.checkBackpressure.place (BuffersOk.reserveWithBackpressure_ok hr)
    (Nat.mul_mod_left _ _) (w := w) rfl rfl hpos rfl, fun b hb => ?_⟩
  dsimp only at hb ⊢
  split_ifs with hbs
  · simp
  · exact hkeep b (hb.imp_left fun hb => hb.resolve_right hbs)

theorem reserve_error (h : s.Keeps holds) {manager : AppendBufferManager} {len : ℕ} {e : KvError}
    (hr : s.manager.reserveWithBackpressure len = (manager, .error e)) :
    Keeps { s with manager := manager } holds :=
  h.withManager fun _ hw => BuffersOk.reserveWithBackpressure_error hr ▸ hw.checkBackpressure

theorem allocRdmaSlot (h : s.Keeps holds) (valueLen : ℕ) :
    (s.allocRdmaSlot valueLen).1.Keeps holds := by
  rw [RdmaEngine.allocRdmaSlot]
  dsimp only
  split
  · next hr => exact h.reserve_error hr
  · next b offset hr =>
      obtain ⟨writes, hw, hkeep⟩ := h.reserve hr
      refine ⟨writes, hw, fun x hx => hkeep x ?_⟩
      dsimp only at hx
      by_cases hxb : x = b
      · exact .inl (.inr hxb)
      · rw [Function.update_of_ne hxb] at hx
        exact hx.imp_left .inl

theorem commitRdmaSlot (h : s.Keeps holds) (slotId epoch : UInt32) :
    (s.commitRdmaSlot slotId epoch).1.Keeps holds := by
  obtain ⟨writes, hw, hkeep⟩ := h
  have hmark (ticket b : ℕ) (hb : holds b ∨ commitTicket ticket (s.reservations b) ≠ []) :
      writes b ≠ [] :=
    hkeep b (hb.imp_right fun hne heq => hne (by rw [heq]; rfl))
  rw [RdmaEngine.commitRdmaSlot]
  split
  · exact ⟨writes, hw, hkeep⟩
  · next slot _ =>
      split_ifs
      · exact ⟨writes, hw, hkeep⟩
      · exact ⟨writes, hw, hkeep⟩
      · dsimp only
        split
        · exact ⟨writes, hw, hmark slot.ticket⟩
        · exact ⟨writes, hw, hmark slot.ticket⟩

/-- A record of `put_buffered` is in its buffer. -/
theorem putBuffered (h : s.Keeps holds) {valueLen : ℕ} {manager : AppendBufferManager}
    {slot : ℕ × ℕ}
    (hr : s.manager.reserveWithBackpressure (entrySize valueLen) = (manager, .ok slot)) :
    (s.putBuffered valueLen).Keeps fun b => holds b ∨ b = slot.1 := by
  rw [RdmaEngine.putBuffered, hr]
  exact (h.reserve hr).submitIfFull

theorem putBuffered_error (h : s.Keeps holds) {valueLen : ℕ} {manager : AppendBufferManager}
    {e : KvError}
    (hr : s.manager.reserveWithBackpressure (entrySize valueLen) = (manager, .error e)) :
    (s.putBuffered valueLen).Keeps holds := by
  rw [RdmaEngine.putBuffered, hr]
  exact (h.reserve_error hr).withManager fun _ hw => hw.move le_rfl rfl rfl le_rfl

/-- **Nothing is in a buffer that was reset.** -/
theorem resetBuffer {b : ℕ} {writing : List ℕ} {out : Multiset ℕ}
    {writes : ℕ → List BufferedPendingWrite}
    (hw : BuffersKept s.manager writes (out + {b}))
    (hkeep : ∀ b, holds b ∨ s.reservations b ≠ [] → writes b ≠ [])
    (hout : (writing : Multiset ℕ) = out) :
    (RdmaEngine.resetBuffer { s with writing := writing } b (s.manager.returnBuffer b)).Keeps
      fun x => holds x ∧ x ≠ b := by
  refine ⟨_, by rw [← hout] at hw; exact hw.release, fun x hx => ?_⟩
  rw [RdmaEngine.resetBuffer] at hx
  dsimp only at hx
  by_cases hxb : x = b
  · rw [hxb, Function.update_self] at hx
    rcases hx with hx | hx
    · exact absurd rfl hx.2
    · exact absurd rfl hx
  · rw [Function.update_of_ne hxb] at hx
    rw [if_neg hxb]
    exact hkeep x (hx.imp_left And.left)

/-- The write of a buffer completes. -/
theorem complete (hi : s.Inv) (h : s.Keeps holds) {b : ℕ} (hb : b ∈ s.writing) :
    (returnBuffer { s with writing := s.writing.erase b } b).Keeps fun x => holds x ∧ x ≠ b := by
  obtain ⟨writes, hw, hkeep⟩ := h
  have hsplit : (s.writing : Multiset ℕ) = ↑(s.writing.erase b) + {b} := by
    rw [add_comm, Multiset.singleton_add, Multiset.cons_coe]
    exact Multiset.coe_eq_coe.mpr (List.perm_cons_erase hb)
  rw [hsplit] at hw
  rw [(hi.erase b).returnBuffer_eq]
  exact resetBuffer hw hkeep rfl

end Keeps

/-! ### Going on with a submitted buffer -/

theorem nextBuffer_eq_some_iff {b : ℕ} : s.nextBuffer = some b ↔
    ∃ ring, s.manager.submitRing = b :: ring ∧ (s.manager.buffers b).isEmpty = false := by
  rw [nextBuffer, Option.filter_eq_some_iff]
  cases s.manager.submitRing with
  | nil => simp
  | cons c ring =>
      simp only [List.head?_cons, Option.some.injEq, Bool.not_eq_true', List.cons.injEq]
      constructor
      · rintro ⟨rfl, h⟩
        exact ⟨ring, ⟨rfl, rfl⟩, h⟩
      · rintro ⟨_, ⟨rfl, rfl⟩, h⟩
        exact ⟨rfl, h⟩

/-- The next buffer is written. -/
theorem submitBuffer_of_file {b : ℕ} (hb : s.nextBuffer = some b) :
    s.submitBuffer true = { s with
      manager := { s.manager with submitRing := s.manager.submitRing.tail }
      writing := s.writing ++ [b]
      uses := s.uses ++ [.written b (s.reservations b)] } := by
  obtain ⟨ring, hring, hne⟩ := nextBuffer_eq_some_iff.mp hb
  rw [submitBuffer, hring]
  dsimp only
  rw [hne, if_neg Bool.false_ne_true, if_pos rfl]
  rfl

/-- There is no file for the next buffer. -/
theorem Inv.submitBuffer_of_noFile (hi : s.Inv) {b : ℕ} (hb : s.nextBuffer = some b) :
    s.submitBuffer false = RdmaEngine.resetBuffer
      { s with manager := { s.manager with submitRing := s.manager.submitRing.tail } } b
      (AppendBufferManager.returnBuffer
        { s.manager with submitRing := s.manager.submitRing.tail } b) := by
  obtain ⟨ring, hring, hne⟩ := nextBuffer_eq_some_iff.mp hb
  rw [RdmaEngine.submitBuffer, hring]
  dsimp only
  rw [hne, if_neg Bool.false_ne_true, if_neg Bool.false_ne_true, returnBuffer,
    if_pos (BufferSlots.canReset_of_inactive (hi.inactive b))]
  rfl

/-- Only an empty buffer, if any, is taken from the submit ring. -/
theorem submitBuffer_of_none (hb : s.nextBuffer = none) (fileOk : Bool) :
    s.submitBuffer fileOk =
      { s with manager := { s.manager with submitRing := s.manager.submitRing.tail } } := by
  rw [nextBuffer] at hb
  rw [submitBuffer]
  cases hring : s.manager.submitRing with
  | nil =>
      dsimp only
      rw [List.tail_nil, ← hring]
  | cons b ring =>
      rw [hring, List.head?_cons, Option.filter_some] at hb
      dsimp only
      cases hempty : (s.manager.buffers b).isEmpty with
      | true => rfl
      | false =>
          rw [hempty] at hb
          cases hb

namespace Keeps

theorem submitBuffer_of_none (h : s.Keeps holds) (hb : s.nextBuffer = none) (fileOk : Bool) :
    (s.submitBuffer fileOk).Keeps holds := by
  rw [RdmaEngine.submitBuffer_of_none hb]
  obtain ⟨writes, hw, hkeep⟩ := h
  rw [nextBuffer] at hb
  cases hring : s.manager.submitRing with
  | nil =>
      rw [List.tail_nil, ← hring]
      exact ⟨writes, hw, hkeep⟩
  | cons b ring =>
      rw [hring, List.head?_cons, Option.filter_some] at hb
      have hempty : (s.manager.buffers b).used = 0 := by
        rw [ite_eq_right_iff] at hb
        have hne : ¬ (!(s.manager.buffers b).isEmpty) = true := fun hne => nomatch hb hne
        rw [Bool.not_eq_true', Bool.not_eq_false] at hne
        exact beq_iff_eq.mp hne
      have hlaid := (hw.ok.buffer b).laid
      rw [hempty] at hlaid
      exact ⟨writes, (hw.take hring).forget hlaid.eq_nil, hkeep⟩

theorem submitBuffer_of_file (h : s.Keeps holds) {b : ℕ} (hb : s.nextBuffer = some b) :
    (s.submitBuffer true).Keeps holds := by
  rw [RdmaEngine.submitBuffer_of_file hb]
  obtain ⟨writes, hw, hkeep⟩ := h
  obtain ⟨ring, hring, -⟩ := nextBuffer_eq_some_iff.mp hb
  refine ⟨writes, ?_, hkeep⟩
  rw [hring, ← Multiset.coe_add, Multiset.coe_singleton]
  exact hw.take hring

theorem submitBuffer_of_noFile (hi : s.Inv) (h : s.Keeps holds) {b : ℕ}
    (hb : s.nextBuffer = some b) :
    (s.submitBuffer false).Keeps fun x => holds x ∧ x ≠ b := by
  rw [hi.submitBuffer_of_noFile hb]
  obtain ⟨writes, hw, hkeep⟩ := h
  obtain ⟨ring, hring, -⟩ := nextBuffer_eq_some_iff.mp hb
  rw [hring]
  exact resetBuffer (s := { s with manager := { s.manager with submitRing := ring } })
    (hw.take hring) hkeep rfl

end Keeps

end RdmaEngine

/-! ### Slots in their buffers -/

namespace RdmaEngine

variable {s s' : RdmaEngine} {slot : AppendSlot}

instance (s : RdmaEngine) (slot : AppendSlot) : Decidable (s.Unreset slot) :=
  inferInstanceAs (Decidable (∃ _ ∈ _, _))

theorem Unreset.of_eq (h : s.Unreset slot) (hres : s'.reservations = s.reservations) :
    s'.Unreset slot := by
  rw [Unreset, hres]
  exact h

/-- A further slot takes none out of its buffer. -/
theorem Unreset.allocRdmaSlot (h : s.Unreset slot) (valueLen : ℕ) :
    (s.allocRdmaSlot valueLen).1.Unreset slot := by
  rw [RdmaEngine.allocRdmaSlot]
  dsimp only
  split
  · exact h.of_eq rfl
  · next b offset _ =>
      obtain ⟨r, hr, hticket⟩ := h
      refine ⟨r, ?_, hticket⟩
      rcases eq_or_ne slot.buffer b with rfl | hb
      · simp only [Function.update_self, List.mem_append, hr, true_or]
      · simp only [Function.update_of_ne hb, hr]

/-- Nor does a commit. -/
theorem Unreset.commitRdmaSlot (h : s.Unreset slot) (slotId epoch : UInt32) :
    (s.commitRdmaSlot slotId epoch).1.Unreset slot := by
  have hmark (ticket : ℕ) :
      ∃ r ∈ commitTicket ticket (s.reservations slot.buffer), r.ticket = slot.ticket := by
    obtain ⟨r, hr, hticket⟩ := h
    refine ⟨_, List.mem_map_of_mem hr, ?_⟩
    split_ifs <;> exact hticket
  rw [RdmaEngine.commitRdmaSlot]
  split
  · exact h
  · next other _ =>
      split_ifs
      · exact h
      · exact h
      · dsimp only
        split <;> exact hmark other.ticket

/-- The reset of another buffer does not either. -/
theorem Unreset.resetBuffer (h : s.Unreset slot) {b : ℕ} (hb : slot.buffer ≠ b)
    (manager : AppendBufferManager) : (s.resetBuffer b manager).Unreset slot := by
  obtain ⟨r, hr, hticket⟩ := h
  refine ⟨r, ?_, hticket⟩
  simp only [RdmaEngine.resetBuffer, Function.update_of_ne hb, hr]

@[simp] theorem reservations_submitIfFull : s.submitIfFull.reservations = s.reservations := by
  rw [submitIfFull]
  split
  · rfl
  · split_ifs <;> rfl

@[simp] theorem writing_submitIfFull : s.submitIfFull.writing = s.writing := by
  rw [submitIfFull]
  split
  · rfl
  · split_ifs <;> rfl

@[simp] theorem reservations_putBuffered (valueLen : ℕ) :
    (s.putBuffered valueLen).reservations = s.reservations := by
  rw [putBuffered]
  split
  · rfl
  · exact reservations_submitIfFull

@[simp] theorem writing_putBuffered (valueLen : ℕ) :
    (s.putBuffered valueLen).writing = s.writing := by
  rw [putBuffered]
  split
  · rfl
  · exact writing_submitIfFull

@[simp] theorem reservations_putRdma (valueOffset : ℕ) :
    (s.putRdma valueOffset).reservations = s.reservations := by
  rw [putRdma]
  split_ifs
  · rfl
  · exact reservations_submitIfFull

@[simp] theorem writing_putRdma (valueOffset : ℕ) : (s.putRdma valueOffset).writing = s.writing := by
  rw [putRdma]
  split_ifs
  · rfl
  · exact writing_submitIfFull

@[simp] theorem writing_allocRdmaSlot (valueLen : ℕ) :
    (s.allocRdmaSlot valueLen).1.writing = s.writing := by
  rw [allocRdmaSlot]
  dsimp only
  split <;> rfl

@[simp] theorem writing_commitRdmaSlot (slotId epoch : UInt32) :
    (s.commitRdmaSlot slotId epoch).1.writing = s.writing := by
  rw [commitRdmaSlot]
  split
  · rfl
  · split_ifs
    · rfl
    · rfl
    · dsimp only
      split <;> rfl

/-- **A slot that is returned** lies within its buffer, from a page boundary on. -/
theorem allocRdmaSlot_ok (hi : s.Inv) {valueLen : ℕ} {engine : RdmaEngine}
    (h : s.allocRdmaSlot valueLen = (engine, .ok slot)) :
    slot.offset % kPageSize = 0 ∧ slot.offset + slot.len ≤ kAppendBufferSize ∧
      slot.len = entrySize valueLen := by
  rw [allocRdmaSlot] at h
  dsimp only at h
  split at h
  · cases (Prod.mk.inj h).2
  · next b offset hr =>
      obtain rfl := Except.ok.inj (Prod.mk.inj h).2
      obtain ⟨writes, hw⟩ := hi.buffers
      obtain ⟨m, hm, hreserved, -⟩ := hw.reserve_ok hr
      refine ⟨?_, hreserved.fits, rfl⟩
      have hoffset := hreserved.offset
      dsimp only at hoffset
      rw [hoffset]
      exact (hm.buffer b).used_paged

end RdmaEngine

end SpdkKv
