import SpdkKv.BufferManager

/-!
# Conservation of Buffers

Two rings that drop what they have no room for, an active buffer that may be missing, a queue
of buffers that wait for a reset, and the buffers that are handed out: no call of the manager
loses a buffer or puts it in two places, and what a buffer holds is handed out before the
buffer is free again, as long as no slot is taken behind the manager's back.

## Main results

* `Slotted.AppendBufferManager.Inv.step`: every buffer is in exactly one place, and no enqueue
  fails.
* `Slotted.AppendBufferManager.Clean.step`: what idle buffers hold was handed out.
* `Slotted.AppendBufferManager.buffers_conserved`: **what holds of the buffers in every
  reachable state**.
-/

namespace SpdkKv

namespace Slotted

/-! ### Properties of a state -/

namespace AppendBufferManager

/-- The places of the buffers: each occurrence of a buffer in one of them counts. -/
def places (s : AppendBufferManager) : Multiset ℕ :=
  ↑s.activeBuffer.toList + ↑s.submitRing.toList + ↑s.completeRing.toList +
    ↑s.pendingResetQueue + ↑s.handedOut

/-- **The buffers are conserved**: every buffer is in exactly one place, no enqueue has failed,
and the buffers have left the submit ring in the order in which they were submitted. -/
structure Conserved (s : AppendBufferManager) : Prop where
  places : s.places = Multiset.range s.currentBufferCount
  enqueued : s.failedEnqueues = 0
  inOrder : s.submitted = s.taken ++ s.submitRing.toList

/-- **No data is forgotten**: a free buffer is empty, and a buffer that waits for its reset
holds what was handed out. -/
def NoUnsubmitted (s : AppendBufferManager) : Prop :=
  (∀ b ∈ s.completeRing.toList, (s.allBuffers b).used = 0) ∧
    ∀ b ∈ s.pendingResetQueue, (s.allBuffers b).used = s.handed b

instance (s : AppendBufferManager) : Decidable s.NoUnsubmitted :=
  inferInstanceAs (Decidable (_ ∧ _))

/-- Slots are taken in buffers that are still to be handed out. -/
def AllocatesInUse (s : AppendBufferManager) : BufferEvent → Prop
  | .allocRdmaSlot b _ => b ∈ s.activeBuffer ∨ b ∈ s.submitRing.toList
  | _ => True

instance (s : AppendBufferManager) (ev : BufferEvent) : Decidable (s.AllocatesInUse ev) := by
  cases ev <;> unfold AllocatesInUse <;> infer_instance

end AppendBufferManager

/-! ### Where the buffers are -/

namespace AppendBufferManager

variable {s s' : AppendBufferManager} {out : Multiset ℕ} {b : ℕ}

/-- The invariant: every buffer that was made is in exactly one place, or among those of `out`
that an operation is about to put somewhere; no ring was ever full; and the submit ring is a
queue. -/
structure Inv (s : AppendBufferManager) (out : Multiset ℕ) : Prop where
  places : s.places + out = Multiset.range s.currentBufferCount
  count_le : s.currentBufferCount ≤ kMaxBufferCount
  enqueued : s.failedEnqueues = 0
  inOrder : s.submitted = s.taken ++ s.submitRing.toList

theorem inv_fresh (bufferSize : UInt64) : (fresh bufferSize).Inv 0 where
  places := by simp [AppendBufferManager.places, fresh]
  count_le := Nat.zero_le _
  enqueued := rfl
  inOrder := by simp [fresh]

/-- No buffer is in two places. -/
theorem Inv.nodup (h : s.Inv out) : (s.places + out).Nodup := h.places ▸ Multiset.nodup_range _

theorem Inv.card_places (h : s.Inv out) :
    s.places.card + out.card = s.currentBufferCount := by
  rw [← Multiset.card_add, h.places, Multiset.card_range]

/-- A buffer that is out is nowhere else. -/
theorem Inv.notMem_places (h : s.Inv (out + {b})) : b ∉ s.places := fun hmem => by
  refine Multiset.disjoint_left.mp (Multiset.nodup_add.mp h.nodup).2.2 hmem ?_
  exact Multiset.mem_add.mpr (.inr (Multiset.mem_singleton_self b))

/-- A buffer in hand finds room in the complete ring. -/
theorem Inv.enqueueComplete (h : s.Inv (out + {b})) : (s.enqueueComplete b).Inv out := by
  have hcard := h.card_places
  have hle := h.count_le
  have hroom : s.completeRing.count + 1 < kMaxBufferCount + 1 := by
    rw [Multiset.card_add, Multiset.card_singleton, AppendBufferManager.places] at hcard
    simp only [Multiset.card_add, Multiset.coe_card, SimpleRing.length_toList] at hcard
    omega
  obtain ⟨hok, hlist⟩ := s.completeRing.enqueue_of_room b hroom
  refine ⟨?_, h.count_le, ?_, h.inOrder⟩
  · rw [← show _ = Multiset.range (s.enqueueComplete b).currentBufferCount from h.places]
    simp only [AppendBufferManager.places, AppendBufferManager.enqueueComplete, hlist,
      ← Multiset.coe_add, Multiset.coe_singleton]
    abel
  · simp only [AppendBufferManager.enqueueComplete, hok, h.enqueued, if_true]

/-- A buffer in hand finds room in the submit ring. -/
theorem Inv.enqueueSubmit (h : s.Inv (out + {b})) : (s.enqueueSubmit b).Inv out := by
  have hcard := h.card_places
  have hle := h.count_le
  have hroom : s.submitRing.count + 1 < kMaxBufferCount + 1 := by
    rw [Multiset.card_add, Multiset.card_singleton, AppendBufferManager.places] at hcard
    simp only [Multiset.card_add, Multiset.coe_card, SimpleRing.length_toList] at hcard
    omega
  obtain ⟨hok, hlist⟩ := s.submitRing.enqueue_of_room b hroom
  refine ⟨?_, h.count_le, ?_, ?_⟩
  · rw [← show _ = Multiset.range (s.enqueueSubmit b).currentBufferCount from h.places]
    simp only [AppendBufferManager.places, AppendBufferManager.enqueueSubmit, hlist,
      ← Multiset.coe_add, Multiset.coe_singleton]
    abel
  · simp only [AppendBufferManager.enqueueSubmit, hok, h.enqueued, if_true]
  · simp only [AppendBufferManager.enqueueSubmit, hlist, h.inOrder, List.append_assoc]

/-- The active buffer is taken in hand. -/
theorem Inv.takeActive (h : s.Inv out) (hb : s.activeBuffer = some b) :
    ({ s with activeBuffer := none } : AppendBufferManager).Inv (out + {b}) := by
  refine ⟨?_, h.count_le, h.enqueued, h.inOrder⟩
  rw [← show _ = Multiset.range s.currentBufferCount from h.places]
  simp only [AppendBufferManager.places, hb, Option.toList_none, Option.toList_some,
    Multiset.coe_nil, Multiset.coe_singleton]
  abel

/-- The active buffer is replaced by a free one. -/
theorem Inv.refill (h : s.Inv out) (hactive : s.activeBuffer = none) : s.refill.Inv out := by
  rw [AppendBufferManager.refill]
  split
  · rwa [← hactive]
  · next b ring hdeq =>
      refine ⟨?_, h.count_le, h.enqueued, h.inOrder⟩
      rw [← show _ = Multiset.range s.currentBufferCount from h.places]
      simp only [AppendBufferManager.places, hactive, s.completeRing.toList_of_dequeue hdeq,
        Option.toList_none, Option.toList_some, Multiset.coe_nil, ← Multiset.cons_coe,
        ← Multiset.singleton_add]
      abel

/-- A new buffer gets a place. -/
theorem Inv.addBuffer (h : s.Inv out) (hroom : s.currentBufferCount < kMaxBufferCount) :
    s.addBuffer.Inv out := by
  refine Inv.enqueueComplete ⟨?_, hroom, h.enqueued, h.inOrder⟩
  rw [Multiset.range_succ, ← h.places, ← Multiset.singleton_add]
  simp only [AppendBufferManager.places]
  abel

theorem currentBufferCount_addBuffer (s : AppendBufferManager) :
    s.addBuffer.currentBufferCount = s.currentBufferCount + 1 := rfl

/-- A buffer changes where it is. -/
theorem Inv.withBuffer (h : s.Inv out) (b : ℕ) (buffer : AppendBuffer) :
    (s.withBuffer b buffer).Inv out :=
  ⟨h.places, h.count_le, h.enqueued, h.inOrder⟩

/-- A buffer in hand becomes a free one. -/
theorem Inv.recycle (h : s.Inv (out + {b})) : (s.recycle b).Inv out :=
  Inv.enqueueComplete ⟨h.places, h.count_le, h.enqueued, h.inOrder⟩

theorem Inv.tryExpand (h : s.Inv out) (memory : Bool) : (s.tryExpand memory).1.Inv out := by
  rw [AppendBufferManager.tryExpand]
  split_ifs with hfull hmemory
  · exact h
  · exact h
  · have hadd := h.addBuffer (by omega)
    dsimp only
    split_ifs with hactive
    · exact hadd.refill (Option.isNone_iff_eq_none.mp hactive)
    · exact hadd

theorem Inv.reserve (h : s.Inv out) (len : UInt64) : (s.reserve len).1.Inv out := by
  rw [AppendBufferManager.reserve]
  split
  · exact h
  · dsimp only
    split_ifs
    · exact h
    · exact h.withBuffer _ _

theorem Inv.reserveWithBackpressure (h : s.Inv out) (len : UInt64) (memory : Bool) :
    (s.reserveWithBackpressure len memory).1.Inv out :=
  keeps_reserveWithBackpressure (P := fun s => s.Inv out) len memory
    (fun _ _ h => ⟨h.places, h.count_le, h.enqueued, h.inOrder⟩)
    (fun _ h => h.tryExpand memory) (fun _ h => h.reserve len) h

theorem Inv.submitCurrentBuffer (h : s.Inv out) : s.submitCurrentBuffer.Inv out := by
  rw [AppendBufferManager.submitCurrentBuffer]
  split
  · exact h
  · next b hb =>
      split_ifs
      · exact h
      · exact (h.takeActive hb).enqueueSubmit.refill rfl

/-- A buffer is handed out. -/
theorem Inv.handOut (h : s.Inv out) {ring : SimpleRing ℕ (kMaxBufferCount + 1)}
    (hring : s.submitRing.toList = b :: ring.toList) : (s.handOut b ring).Inv out := by
  refine ⟨?_, h.count_le, h.enqueued, ?_⟩
  · rw [← show _ = Multiset.range (s.handOut b ring).currentBufferCount from h.places]
    simp only [AppendBufferManager.places, AppendBufferManager.handOut, hring,
      ← Multiset.coe_add, Multiset.coe_nil, ← Multiset.cons_coe, ← Multiset.singleton_add]
    abel
  · simp only [AppendBufferManager.handOut, h.inOrder, hring, List.append_assoc,
      List.cons_append, List.nil_append]

theorem Inv.getPendingBuffers (h : s.Inv out) (maxCount : ℕ) :
    (s.getPendingBuffers maxCount).Inv out := by
  induction maxCount generalizing s with
  | zero => exact h
  | succ maxCount ih =>
      rw [AppendBufferManager.getPendingBuffers]
      split
      · exact h
      · next b ring hdeq => exact ih (h.handOut (s.submitRing.toList_of_dequeue hdeq))

/-- A buffer in hand is returned. -/
theorem Inv.returnBuffer (h : s.Inv (out + {b})) : (s.returnBuffer b).Inv out := by
  rw [AppendBufferManager.returnBuffer]
  split_ifs with hreset
  · have hrecycle := h.recycle
    dsimp only
    split_ifs with hactive
    · exact hrecycle.refill (Option.isNone_iff_eq_none.mp hactive)
    · exact hrecycle
  · refine ⟨?_, h.count_le, h.enqueued, h.inOrder⟩
    rw [← show _ = Multiset.range s.currentBufferCount from h.places]
    simp only [AppendBufferManager.places, ← Multiset.coe_add, Multiset.coe_singleton]
    abel

/-- A buffer that was handed out is taken in hand. -/
theorem Inv.takeHandedOut (h : s.Inv out) (hb : b ∈ s.handedOut) :
    ({ s with handedOut := s.handedOut.erase b } : AppendBufferManager).Inv (out + {b}) := by
  refine ⟨?_, h.count_le, h.enqueued, h.inOrder⟩
  rw [← show _ = Multiset.range s.currentBufferCount from h.places]
  have hcons : (↑s.handedOut : Multiset ℕ) = ↑(s.handedOut.erase b) + {b} := by
    rw [add_comm, Multiset.singleton_add, ← Multiset.coe_erase,
      Multiset.cons_erase (Multiset.mem_coe.mpr hb)]
  simp only [AppendBufferManager.places, hcons]
  abel

/-- The first buffers of the queue are reset, as far as they can be. -/
theorem Inv.resetPending {queue : List ℕ}
    (h : ({ s with pendingResetQueue := queue } : AppendBufferManager).Inv out) :
    (s.resetPending queue).Inv out := by
  induction queue generalizing s with
  | nil => exact h
  | cons b queue ih =>
      rw [AppendBufferManager.resetPending]
      split_ifs
      · refine ih (Inv.recycle (s := { s with pendingResetQueue := queue }) ⟨?_, h.count_le,
          h.enqueued, h.inOrder⟩)
        rw [← show _ = Multiset.range s.currentBufferCount from h.places]
        simp only [AppendBufferManager.places, ← Multiset.cons_coe, ← Multiset.singleton_add]
        abel
      · exact h

/-- **What one step keeps**: no call loses or doubles a buffer. -/
theorem Inv.step {ev : BufferEvent} (h : s.Inv 0) (hstep : s.step ev = some s') : s'.Inv 0 := by
  cases ev with
  | reserve len memory =>
      obtain rfl := Option.some.inj hstep
      exact h.reserveWithBackpressure len memory
  | submitCurrentBuffer =>
      obtain rfl := Option.some.inj hstep
      exact h.submitCurrentBuffer
  | getPendingBuffers maxCount =>
      obtain rfl := Option.some.inj hstep
      exact h.getPendingBuffers maxCount
  | returnBuffer b =>
      obtain ⟨hb, heq⟩ := Option.ite_none_right_eq_some.mp hstep
      obtain rfl := Option.some.inj heq
      exact (h.takeHandedOut hb).returnBuffer
  | checkPendingResets =>
      obtain rfl := Option.some.inj hstep
      exact Inv.resetPending h
  | tryExpand memory =>
      obtain rfl := Option.some.inj hstep
      exact h.tryExpand memory
  | allocRdmaSlot b size =>
      obtain ⟨-, heq⟩ := Option.ite_none_right_eq_some.mp hstep
      obtain rfl := Option.some.inj heq
      exact h.withBuffer _ _
  | markRdmaComplete b slotId =>
      obtain ⟨-, heq⟩ := Option.ite_none_right_eq_some.mp hstep
      obtain rfl := Option.some.inj heq
      exact h.withBuffer _ _
  | releaseRdmaSlot b slotId =>
      obtain ⟨-, heq⟩ := Option.ite_none_right_eq_some.mp hstep
      obtain rfl := Option.some.inj heq
      exact h.withBuffer _ _

/-! ### What the buffers hold -/

/-- The buffers outside of the active one and the submit ring. -/
def IsIdle (s : AppendBufferManager) (b : ℕ) : Prop :=
  b ∈ s.completeRing.toList ∨ b ∈ s.pendingResetQueue ∨ b ∈ s.handedOut

/-- A free buffer is empty, and all that a buffer outside of the active one and the submit
ring holds was handed out. -/
structure Clean (s : AppendBufferManager) : Prop where
  free : ∀ b ∈ s.completeRing.toList, (s.allBuffers b).used = 0
  pending : ∀ b ∈ s.pendingResetQueue, (s.allBuffers b).used = s.handed b
  handedOut : ∀ b ∈ s.handedOut, (s.allBuffers b).used = s.handed b

theorem clean_fresh (bufferSize : UInt64) : (fresh bufferSize).Clean where
  free := by simp [fresh]
  pending := by simp [fresh]
  handedOut := by simp [fresh]

/-- The idle buffers hold what they held. -/
theorem Clean.of_agree (h : s.Clean) (hcomplete : s'.completeRing.toList ⊆ s.completeRing.toList)
    (hpending : s'.pendingResetQueue ⊆ s.pendingResetQueue)
    (hhanded : s'.handedOut ⊆ s.handedOut)
    (hused : ∀ b, s.IsIdle b → (s'.allBuffers b).used = (s.allBuffers b).used)
    (hcount : s'.handed = s.handed) : s'.Clean where
  free := fun b hb => (hused b (.inl (hcomplete hb))).trans (h.free b (hcomplete hb))
  pending := fun b hb => by
    rw [hused b (.inr (.inl (hpending hb))), hcount]
    exact h.pending b (hpending hb)
  handedOut := fun b hb => by
    rw [hused b (.inr (.inr (hhanded hb))), hcount]
    exact h.handedOut b (hhanded hb)

/-- A buffer that was put into the ring is there, if anything was put there. -/
theorem mem_enqueueComplete {x : ℕ} (hx : x ∈ (s.enqueueComplete b).completeRing.toList) :
    x ∈ s.completeRing.toList ∨ x = b := by
  rw [AppendBufferManager.enqueueComplete] at hx
  dsimp only at hx
  rw [SimpleRing.toList_enqueue] at hx
  split_ifs at hx
  · exact (List.mem_append.mp hx).imp_right List.mem_singleton.mp
  · exact .inl hx

/-- An empty buffer becomes a free one. -/
theorem Clean.enqueueComplete (h : s.Clean) (hb : (s.allBuffers b).used = 0) :
    (s.enqueueComplete b).Clean where
  free := by
    intro x hx
    rcases mem_enqueueComplete hx with hx | rfl
    · exact h.free x hx
    · exact hb
  pending := h.pending
  handedOut := h.handedOut

theorem Clean.refill (h : s.Clean) : s.refill.Clean := by
  rw [AppendBufferManager.refill]
  split
  · exact ⟨h.free, h.pending, h.handedOut⟩
  · next b ring hdeq =>
      have hring := s.completeRing.toList_of_dequeue hdeq
      refine ⟨fun x hx => h.free x ?_, h.pending, h.handedOut⟩
      rw [hring]
      exact List.mem_cons_of_mem _ hx

/-- A buffer that is idle has its place. -/
theorem IsIdle.mem_places (h : s.IsIdle b) : b ∈ s.places := by
  simp only [places, Multiset.mem_add, Multiset.mem_coe]
  rcases h with h | h | h
  · exact .inl (.inl (.inr h))
  · exact .inl (.inr h)
  · exact .inr h

/-- The buffer in use and the submitted ones are not idle. -/
theorem Inv.not_isIdle (h : s.Inv out) (hb : b ∈ s.activeBuffer ∨ b ∈ s.submitRing.toList) :
    ¬ s.IsIdle b := fun hidle => by
  have hplaces : s.places = (↑s.activeBuffer.toList + ↑s.submitRing.toList) +
      (↑s.completeRing.toList + ↑s.pendingResetQueue + ↑s.handedOut) := by
    rw [AppendBufferManager.places]
    abel
  have hnodup := (Multiset.nodup_add.mp h.nodup).1
  rw [hplaces] at hnodup
  refine Multiset.disjoint_left.mp (Multiset.nodup_add.mp hnodup).2.2 (?_ : b ∈ _) ?_
  · simpa using hb
  · simpa [IsIdle, or_assoc] using hidle

theorem Clean.addBuffer (hi : s.Inv out) (h : s.Clean) : s.addBuffer.Clean := by
  refine Clean.enqueueComplete (h.of_agree (List.Subset.refl _) (List.Subset.refl _)
    (List.Subset.refl _) (fun x hx => ?_) rfl) ?_
  · have hlt : x < s.currentBufferCount := Multiset.mem_range.mp
      (hi.places ▸ Multiset.mem_add.mpr (.inl hx.mem_places))
    exact congrArg AppendBuffer.used (Function.update_of_ne hlt.ne _ _)
  · simp only [Function.update_self, AppendBuffer.fresh]

/-- A buffer that is not idle changes. -/
theorem Clean.withBuffer (h : s.Clean) {buffer : AppendBuffer}
    (hb : s.IsIdle b → buffer.used = (s.allBuffers b).used) : (s.withBuffer b buffer).Clean := by
  refine h.of_agree (List.Subset.refl _) (List.Subset.refl _) (List.Subset.refl _)
    (fun x hx => ?_) rfl
  by_cases hxb : x = b
  · rw [hxb] at hx ⊢
    exact (congrArg AppendBuffer.used (Function.update_self _ _ _)).trans (hb hx)
  · exact congrArg AppendBuffer.used (Function.update_of_ne hxb _ _)

/-- A buffer in hand is reset. -/
theorem Clean.recycle (hi : s.Inv (out + {b})) (h : s.Clean) : (s.recycle b).Clean := by
  have hne : ∀ x, s.IsIdle x → x ≠ b := fun x hx heq => hi.notMem_places (heq ▸ hx.mem_places)
  refine Clean.enqueueComplete ⟨fun x hx => ?_, fun x hx => ?_, fun x hx => ?_⟩ ?_
  · exact (congrArg AppendBuffer.used (Function.update_of_ne (hne x (.inl hx)) _ _)).trans
      (h.free x hx)
  · have hx' := hne x (.inr (.inl hx))
    exact (congrArg AppendBuffer.used (Function.update_of_ne hx' _ _)).trans
      ((h.pending x hx).trans (Function.update_of_ne hx' _ _).symm)
  · have hx' := hne x (.inr (.inr hx))
    exact (congrArg AppendBuffer.used (Function.update_of_ne hx' _ _)).trans
      ((h.handedOut x hx).trans (Function.update_of_ne hx' _ _).symm)
  · simp only [AppendBufferManager.withBuffer, Function.update_self, AppendBuffer.reset]

theorem Clean.tryExpand (hi : s.Inv out) (h : s.Clean) (memory : Bool) :
    (s.tryExpand memory).1.Clean := by
  rw [AppendBufferManager.tryExpand]
  split_ifs
  · exact h
  · exact h
  · dsimp only
    split_ifs
    · exact (h.addBuffer hi).refill
    · exact h.addBuffer hi

theorem Clean.reserve (hi : s.Inv out) (h : s.Clean) (len : UInt64) : (s.reserve len).1.Clean := by
  rw [AppendBufferManager.reserve]
  split
  · exact h
  · next b hb =>
      dsimp only
      split_ifs
      · exact h
      · exact h.withBuffer fun hidle => absurd hidle (hi.not_isIdle (.inl hb))

theorem Clean.reserveWithBackpressure (hi : s.Inv out) (h : s.Clean) (len : UInt64)
    (memory : Bool) : (s.reserveWithBackpressure len memory).1.Clean :=
  (keeps_reserveWithBackpressure (P := fun s => s.Inv out ∧ s.Clean) len memory
    (fun _ _ h => ⟨⟨h.1.places, h.1.count_le, h.1.enqueued, h.1.inOrder⟩,
      h.2.free, h.2.pending, h.2.handedOut⟩)
    (fun _ h => ⟨h.1.tryExpand memory, h.2.tryExpand h.1 memory⟩)
    (fun _ h => ⟨h.1.reserve len, h.2.reserve h.1 len⟩) ⟨hi, h⟩).2

theorem Clean.submitCurrentBuffer (h : s.Clean) : s.submitCurrentBuffer.Clean := by
  rw [AppendBufferManager.submitCurrentBuffer]
  split
  · exact h
  · split_ifs
    · exact h
    · exact Clean.refill ⟨h.free, h.pending, h.handedOut⟩

/-- A buffer is handed out with all that it holds. -/
theorem Clean.handOut (hi : s.Inv out) (h : s.Clean)
    {ring : SimpleRing ℕ (kMaxBufferCount + 1)}
    (hring : s.submitRing.toList = b :: ring.toList) : (s.handOut b ring).Clean := by
  have hb : b ∈ s.submitRing.toList := by
    rw [hring]
    exact List.mem_cons_self
  have hne : ∀ x, s.IsIdle x → x ≠ b := fun x hx heq => hi.not_isIdle (.inr hb) (heq ▸ hx)
  refine ⟨h.free, fun x hx => ?_, fun x hx => ?_⟩
  · exact (h.pending x hx).trans (Function.update_of_ne (hne x (.inr (.inl hx))) _ _).symm
  · rcases List.mem_append.mp hx with hx | hx
    · exact (h.handedOut x hx).trans (Function.update_of_ne (hne x (.inr (.inr hx))) _ _).symm
    · rw [List.mem_singleton.mp hx]
      exact (Function.update_self b _ s.handed).symm

theorem Clean.getPendingBuffers (hi : s.Inv out) (h : s.Clean) (maxCount : ℕ) :
    (s.getPendingBuffers maxCount).Clean := by
  induction maxCount generalizing s with
  | zero => exact h
  | succ maxCount ih =>
      rw [AppendBufferManager.getPendingBuffers]
      split
      · exact h
      · next b ring hdeq =>
          have hring := s.submitRing.toList_of_dequeue hdeq
          exact ih (hi.handOut hring) (h.handOut hi hring)

/-- A buffer in hand that holds what was handed out is returned. -/
theorem Clean.returnBuffer (hi : s.Inv (out + {b})) (h : s.Clean)
    (hb : (s.allBuffers b).used = s.handed b) : (s.returnBuffer b).Clean := by
  rw [AppendBufferManager.returnBuffer]
  split_ifs
  · dsimp only
    split_ifs
    · exact (h.recycle hi).refill
    · exact h.recycle hi
  · refine ⟨h.free, fun x hx => ?_, h.handedOut⟩
    rcases List.mem_append.mp hx with hx | hx
    · exact h.pending x hx
    · rwa [List.mem_singleton.mp hx]

theorem Clean.resetPending {queue : List ℕ}
    (hi : ({ s with pendingResetQueue := queue } : AppendBufferManager).Inv out)
    (h : ({ s with pendingResetQueue := queue } : AppendBufferManager).Clean) :
    (s.resetPending queue).Clean := by
  induction queue generalizing s with
  | nil => exact h
  | cons b queue ih =>
      rw [AppendBufferManager.resetPending]
      split_ifs
      · have hhand : ({ s with pendingResetQueue := queue } : AppendBufferManager).Inv
            (out + {b}) := by
          refine ⟨?_, hi.count_le, hi.enqueued, hi.inOrder⟩
          rw [← show _ = Multiset.range s.currentBufferCount from hi.places]
          simp only [AppendBufferManager.places, ← Multiset.cons_coe, ← Multiset.singleton_add]
          abel
        refine ih (Inv.recycle hhand) (Clean.recycle hhand ⟨h.free, fun x hx => ?_, h.handedOut⟩)
        exact h.pending x (List.mem_cons_of_mem _ hx)
      · exact h

/-- **What one step keeps** if its slot is taken in a buffer that is still to be handed out. -/
theorem Clean.step {ev : BufferEvent} (hi : s.Inv 0) (h : s.Clean) (hc : s.AllocatesInUse ev)
    (hstep : s.step ev = some s') : s'.Clean := by
  cases ev with
  | reserve len memory =>
      obtain rfl := Option.some.inj hstep
      exact h.reserveWithBackpressure hi len memory
  | submitCurrentBuffer =>
      obtain rfl := Option.some.inj hstep
      exact h.submitCurrentBuffer
  | getPendingBuffers maxCount =>
      obtain rfl := Option.some.inj hstep
      exact h.getPendingBuffers hi maxCount
  | returnBuffer b =>
      obtain ⟨hb, heq⟩ := Option.ite_none_right_eq_some.mp hstep
      obtain rfl := Option.some.inj heq
      have hkeep : ({ s with handedOut := s.handedOut.erase b } : AppendBufferManager).Clean :=
        ⟨h.free, h.pending, fun x hx => h.handedOut x (List.mem_of_mem_erase hx)⟩
      exact hkeep.returnBuffer (hi.takeHandedOut hb) (h.handedOut b hb)
  | checkPendingResets =>
      obtain rfl := Option.some.inj hstep
      exact Clean.resetPending hi h
  | tryExpand memory =>
      obtain rfl := Option.some.inj hstep
      exact h.tryExpand hi memory
  | allocRdmaSlot b size =>
      obtain ⟨-, heq⟩ := Option.ite_none_right_eq_some.mp hstep
      obtain rfl := Option.some.inj heq
      exact h.withBuffer fun hidle => absurd hidle (hi.not_isIdle hc)
  | markRdmaComplete b slotId =>
      obtain ⟨-, heq⟩ := Option.ite_none_right_eq_some.mp hstep
      obtain rfl := Option.some.inj heq
      exact h.withBuffer fun _ => rfl
  | releaseRdmaSlot b slotId =>
      obtain ⟨-, heq⟩ := Option.ite_none_right_eq_some.mp hstep
      obtain rfl := Option.some.inj heq
      exact h.withBuffer fun _ => AppendBuffer.used_releaseRdmaSlot _ slotId

/-! ### Runs of the manager -/

/-- The buffers that `initialize` makes. -/
theorem inv_addBuffers (bufferSize : UInt64) {bufferCount : ℕ}
    (hle : bufferCount ≤ kMaxBufferCount) :
    (addBuffer^[bufferCount] (fresh bufferSize)).currentBufferCount = bufferCount ∧
      (addBuffer^[bufferCount] (fresh bufferSize)).Inv 0 ∧
      (addBuffer^[bufferCount] (fresh bufferSize)).Clean := by
  induction bufferCount with
  | zero => exact ⟨rfl, inv_fresh bufferSize, clean_fresh bufferSize⟩
  | succ bufferCount ih =>
      obtain ⟨hcount, hinv, hclean⟩ := ih (by omega)
      rw [Function.iterate_succ_apply']
      refine ⟨?_, hinv.addBuffer (by omega), hclean.addBuffer hinv⟩
      rw [currentBufferCount_addBuffer, hcount]

theorem activeBuffer_addBuffers (bufferSize : UInt64) (bufferCount : ℕ) :
    (addBuffer^[bufferCount] (fresh bufferSize)).activeBuffer = none := by
  induction bufferCount with
  | zero => rfl
  | succ bufferCount ih => rwa [Function.iterate_succ_apply']

theorem inv_init (bufferSize : UInt64) {bufferCount : ℕ} (hle : bufferCount ≤ kMaxBufferCount) :
    (init bufferCount bufferSize).Inv 0 :=
  (inv_addBuffers bufferSize hle).2.1.refill (activeBuffer_addBuffers bufferSize bufferCount)

theorem clean_init (bufferSize : UInt64) {bufferCount : ℕ} (hle : bufferCount ≤ kMaxBufferCount) :
    (init bufferCount bufferSize).Clean :=
  (inv_addBuffers bufferSize hle).2.2.refill

/-- **What holds of the buffers in every reachable state** of a manager with up to
`kMaxBufferCount` buffers: they are conserved whatever is called, and no data is forgotten as
long as slots are taken in the active buffer or in one that waits in the submit ring. -/
theorem buffers_conserved (bufferSize : UInt64) {bufferCount : ℕ}
    (hle : bufferCount ≤ kMaxBufferCount) {events : List BufferEvent} {s : AppendBufferManager}
    (hr : bufferMachine.run (init bufferCount bufferSize) events = some s) :
    s.Conserved ∧ (bufferMachine.Meets AllocatesInUse (init bufferCount bufferSize) events →
      s.NoUnsubmitted) := by
  refine ⟨?_, fun hc => ?_⟩
  · have hinv := bufferMachine.run_invariant_of_step (fun s => s.Inv 0)
      (fun _ _ _ h hstep => h.step hstep) (inv_init bufferSize hle) hr
    exact ⟨by simpa using hinv.places, hinv.enqueued, hinv.inOrder⟩
  · have hclean := bufferMachine.run_invariant (fun s => s.Inv 0 ∧ s.Clean)
      (fun _ _ _ h hc hstep => ⟨h.1.step hstep, h.2.step h.1 hc hstep⟩)
      ⟨inv_init bufferSize hle, clean_init bufferSize hle⟩ hc hr
    exact ⟨hclean.2.free, hclean.2.pending⟩

/-- A slot is taken in the buffer that is being filled. -/
theorem buffers_conserved_slot :
    4 ≤ kMaxBufferCount ∧ ∃ s, bufferMachine.run (init 4 0x200000)
      [.allocRdmaSlot 0 4096, .submitCurrentBuffer, .getPendingBuffers 16, .returnBuffer 0] =
        some s ∧ s.Conserved := by
  have hle : 4 ≤ kMaxBufferCount := by decide
  have hr : (bufferMachine.run (init 4 0x200000) [.allocRdmaSlot 0 4096, .submitCurrentBuffer,
      .getPendingBuffers 16, .returnBuffer 0]).isSome = true := by decide +kernel
  obtain ⟨s, hs⟩ := Option.isSome_iff_exists.mp hr
  exact ⟨hle, s, hs, (buffers_conserved 0x200000 hle hs).1⟩

/-- **Data is forgotten**: a slot is taken in a free buffer, or in one that was handed out
before. -/
theorem unsubmitted_slot :
    (bufferMachine.run (init 4 0x200000) [.allocRdmaSlot 1 4096]).map
        (fun s => decide s.NoUnsubmitted) = some false ∧
      (bufferMachine.run (init 4 0x200000) [.reserve 4096 true, .submitCurrentBuffer,
        .getPendingBuffers 16, .allocRdmaSlot 0 4096, .returnBuffer 0]).map
        (fun s => decide s.NoUnsubmitted) = some false := by
  decide +kernel

end AppendBufferManager

end Slotted

end SpdkKv
