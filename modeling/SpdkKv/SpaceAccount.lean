import Mathlib.Algebra.BigOperators.Group.List.Basic
import SpdkKv.EngineMoves
import SpdkKv.IndexBytes

/-!
# The Account of the Space

`total_data_bytes_` counts the bytes that were submitted, or written by `put` and `del`;
`total_garbage_bytes_` counts, whenever a write completes, what the write makes garbage: for a
put the entry that the index has then, whether or not `upsert` replaces it, and for a delete
the size that the entry had when the delete was called. `Charge` is what a completion does to
the index and to the account, and a charge is fair when it does not exceed what the index
gives up.

## Main results

* `Charge.Fair.balance`: what a fair charge does to the bytes of the index and the garbage.
* `Engine.balanced_completeInflight`: a completion with fair charges keeps the balance.
* `EngineSystem.space_accounted`: **garbage and live bytes do not exceed the data** in runs in
  which every charge is fair.
-/

namespace SpdkKv

variable {n : ℕ}

/-- Whether a table is well formed can be computed. -/
instance MemIndex.Wf.decidable (m : MemIndex n) : Decidable m.Wf :=
  decidable_of_iff ((∀ i, ¬ m.Occupied i → m.entries i = MemIndexEntry.zero) ∧
      (∀ i, m.Occupied i → (m.entries i).tag = HashUtil.tag (m.entries i).key) ∧
      (∀ i, m.Occupied i → ∃ d ≤ 128, d ≤ m.psl i ∧ probe n (m.entries i).key d = i ∧
        ∀ j < d, m.Occupied (probe n (m.entries i).key j) ∧
          j ≤ m.psl (probe n (m.entries i).key j)) ∧
      ∀ i j, m.Occupied i → m.Occupied j → (m.entries i).key = (m.entries j).key → i = j)
    ⟨fun ⟨h1, h2, h3, h4⟩ => ⟨h1, h2, h3, h4⟩, fun h => ⟨h.unused, h.tag_eq, h.path, h.inj⟩⟩

/-! ### Charges -/

/-- What a completed write does to the index and to the account. -/
inductive Charge
  /-- The entry is given to `upsert`, and the entry that is there is charged. -/
  | put (entry : MemIndexEntry)
  /-- The key is removed, and the given bytes are charged. -/
  | delete (key : UInt64) (old : ℕ)

namespace Charge

/-- The index afterwards. -/
def apply (m : MemIndex n) : Charge → MemIndex n
  | put entry => (m.upsert entry.key entry).1
  | delete key _ => (m.remove key).1

/-- The bytes that become garbage according to the account. -/
def amount (m : MemIndex n) : Charge → ℕ
  | put entry => MemIndex.foundBytes (m.findEntry entry.key)
  | delete _ old => old

/-- The bytes that the write adds to the index. -/
def bytes : Charge → ℕ
  | put entry => MemIndex.entryBytes entry
  | delete _ _ => 0

/-- **A fair charge**: the index accepts the entry or, if a newer one is there, that one is not
larger; a key that is removed has at least the bytes that are charged. -/
def Fair (m : MemIndex n) : Charge → Prop
  | put entry => entry.deleted = false ∧ m.AcceptedOp (.upsert entry) ∧
      ∀ o ∈ m.stored entry.key, MemIndex.sequenceNewer entry.sequence o.sequence = false →
        MemIndex.foundBytes (m.findEntry entry.key) ≤ MemIndex.entryBytes entry
  | delete key old => old ≤ MemIndex.foundBytes (m.findEntry key)

instance (m : MemIndex n) : (c : Charge) → Decidable (c.Fair m)
  | put entry => inferInstanceAs (Decidable (entry.deleted = false ∧
      m.AcceptedOp (.upsert entry) ∧ ∀ o ∈ m.stored entry.key, _ → _))
  | delete _ _ => inferInstanceAs (Decidable (_ ≤ _))

/-- Every charge of a list is fair, one after the other. -/
def AllFair : MemIndex n → List Charge → Prop
  | _, [] => True
  | m, c :: cs => c.Fair m ∧ AllFair (c.apply m) cs

instance AllFair.decidable : (m : MemIndex n) → (cs : List Charge) → Decidable (AllFair m cs)
  | _, [] => .isTrue trivial
  | m, c :: cs =>
      have : Decidable (AllFair (c.apply m) cs) := AllFair.decidable (c.apply m) cs
      inferInstanceAs (Decidable (c.Fair m ∧ AllFair (c.apply m) cs))

/-- **What a fair charge does to the balance.** -/
theorem Fair.balance {m : MemIndex n} (hm : m.Wf) {c : Charge} (h : c.Fair m) :
    (c.apply m).Wf ∧ c.amount m + (c.apply m).liveBytes ≤ m.liveBytes + c.bytes := by
  cases c with
  | put entry =>
      obtain ⟨hdel, ⟨hord, hok⟩, hstale⟩ := h
      refine ⟨hm.upsert rfl hord, ?_⟩
      rw [amount, apply, bytes]
      by_cases hnewer : ∀ o, m.stored entry.key = some o →
          MemIndex.sequenceNewer entry.sequence o.sequence = true
      · have := hm.liveBytes_upsert hord hok hnewer hdel
        omega
      · obtain ⟨o, hstored, hold⟩ : ∃ o, m.stored entry.key = some o ∧
            MemIndex.sequenceNewer entry.sequence o.sequence = false := by
          simpa using hnewer
        have hle := hstale o hstored hold
        rw [hm.liveBytes_upsert_of_stale hord hok hstored hold]
        omega
  | delete key old =>
      refine ⟨hm.remove key, ?_⟩
      have hle : old ≤ MemIndex.foundBytes (m.findEntry key) := h
      have hremove := hm.liveBytes_remove key
      rw [amount, apply, bytes]
      omega

/-- The index and the garbage after some charges. -/
def applyAll (p : MemIndex n × ℕ) (cs : List Charge) : MemIndex n × ℕ :=
  cs.foldl (fun p c => (c.apply p.1, p.2 + c.amount p.1)) p

/-- **What fair charges do to the balance.** -/
theorem AllFair.balance {p : MemIndex n × ℕ} (hm : p.1.Wf) {cs : List Charge}
    (h : AllFair p.1 cs) : (applyAll p cs).1.Wf ∧
      (applyAll p cs).2 + (applyAll p cs).1.liveBytes ≤
        p.2 + p.1.liveBytes + (cs.map bytes).sum := by
  induction cs generalizing p with
  | nil => exact ⟨hm, le_rfl⟩
  | cons c cs ih =>
      obtain ⟨hwf, hle⟩ := h.1.balance hm
      obtain ⟨hwf', hle'⟩ := ih (p := (c.apply p.1, p.2 + c.amount p.1)) hwf h.2
      refine ⟨hwf', hle'.trans ?_⟩
      rw [List.map_cons, List.sum_cons]
      dsimp only
      omega

end Charge

/-! ### What completions charge -/

namespace Engine

variable {self self' self'' : Engine n}

/-- The charge of a single write. -/
def ctxCharge (ctx : WriteCtx) : Charge :=
  if ctx.isDelete then .delete ctx.key ctx.oldGarbageSize else .put ctx.entry

/-- The charges of a write that completes. -/
def charges (self : Engine n) : InflightWrite → List Charge
  | .queued ctx => [ctxCharge ctx]
  | .putAsync ctx _ => [ctxCharge ctx]
  | .deleteAsync key _ oldSize => [.delete key oldSize]
  | .buffer buffer fileId basePageOffset =>
      (self.bufferedWrites buffer).map fun w => .put (bufferedEntry fileId basePageOffset w)
  | .waitQueue ctx => [ctxCharge ctx]

/-- The index and the garbage. -/
def books (self : Engine n) : MemIndex n × ℕ := (self.memIndex, self.totalGarbageBytes)

theorem books_completePut (self : Engine n) {key : UInt64} {entry : MemIndexEntry}
    (hkey : entry.key = key) :
    (self.completePut key entry).books = Charge.applyAll self.books [.put entry] := by
  rw [books, completePut_memIndex, completePut, markGarbage]
  subst hkey
  cases hfind : self.memIndex.findEntry entry.key with
  | none => simp [Charge.applyAll, Charge.apply, Charge.amount, books, hfind, MemIndex.foundBytes]
  | some existing =>
      simp [Charge.applyAll, Charge.apply, Charge.amount, books, hfind, MemIndex.foundBytes,
        MemIndex.entryBytes]

theorem books_onQueuedWriteComplete (self : Engine n) (ctx : WriteCtx) :
    (self.onQueuedWriteComplete true ctx).1.books =
      Charge.applyAll self.books [ctxCharge ctx] := by
  rw [onQueuedWriteComplete, if_pos rfl, ctxCharge]
  dsimp only
  split_ifs
  · rfl
  · exact self.books_completePut ctx.key_eq

theorem books_foldl_completeBuffered (fileId base : ℕ) (ws : List BufferedPendingWrite)
    (r : Engine n × List WriteEffect) :
    (ws.foldl (completeBuffered fileId base true) r).1.books =
      Charge.applyAll r.1.books (ws.map fun w => .put (bufferedEntry fileId base w)) := by
  induction ws generalizing r with
  | nil => rfl
  | cons w ws ih =>
      have hput : (r.1.completePut w.key (bufferedEntry fileId base w)).books =
          Charge.applyAll r.1.books [.put (bufferedEntry fileId base w)] :=
        r.1.books_completePut rfl
      rw [List.foldl_cons, ih, List.map_cons, completeBuffered, if_pos rfl]
      dsimp only
      rw [hput]
      rfl

/-- **A write that completes makes its charges.** -/
theorem books_onComplete (self : Engine n) (write : InflightWrite) :
    (self.onComplete true write).1.books = Charge.applyAll self.books (self.charges write) := by
  cases write with
  | queued ctx => exact self.books_onQueuedWriteComplete ctx
  | waitQueue ctx => exact self.books_onQueuedWriteComplete ctx
  | putAsync ctx isPut =>
      rw [onComplete, onPutAsyncWriteComplete, if_pos rfl, charges, ctxCharge, if_neg (by simp [isPut])]
      exact self.books_completePut ctx.key_eq
  | deleteAsync key sequence oldSize => rfl
  | buffer buffer fileId base =>
      rw [onComplete, onBufferIoComplete, charges]
      exact books_foldl_completeBuffered fileId base _ (self, [])

/-! ### What the writes in flight carry -/

/-- The bytes of the writes in flight. -/
def inflightBytes (self : Engine n) : ℕ := (self.space.inflight.map fun io => io.range.length).sum

/-- **The balance**: garbage, live bytes and the writes in flight do not exceed the data. -/
def Balanced (self : Engine n) : Prop :=
  self.memIndex.Wf ∧
    self.totalGarbageBytes + self.memIndex.liveBytes + self.inflightBytes ≤ self.totalDataBytes

/-- An entry has no more bytes than its range. -/
theorem entryBytes_le_of_narrows {e : MemIndexEntry} {r : BlobRange} (h : e.Narrows r) :
    MemIndex.entryBytes e ≤ r.length := by
  rw [MemIndex.entryBytes, h.pageCount, UInt16.toNat_ofNat', kPageSize]
  omega

theorem bytes_ctxCharge_le {ctx : WriteCtx} {r : BlobRange} (h : ctx.entry.Narrows r) :
    (ctxCharge ctx).bytes ≤ r.length := by
  rw [ctxCharge]
  split_ifs
  · exact Nat.zero_le _
  · exact entryBytes_le_of_narrows h

/-- The records in a buffer have no more bytes than the buffer. -/
theorem sum_bytes_le_of_laid {ws : List BufferedPendingWrite} {used : ℕ} (h : Laid ws used)
    (fileId base : ℕ) :
    ((ws.map fun w => Charge.put (bufferedEntry fileId base w)).map Charge.bytes).sum ≤ used := by
  -- the records that lie behind an offset have the bytes up to the end of the buffer
  suffices hbehind : ∀ (ws : List BufferedPendingWrite) (start : ℕ), Laid ws used →
      (∀ w ∈ ws, start ≤ w.bufferOffset) → start ≤ used →
      start + ((ws.map fun w => Charge.put (bufferedEntry fileId base w)).map Charge.bytes).sum ≤
        used by
    have := hbehind ws 0 h (fun _ _ => Nat.zero_le _) (Nat.zero_le _)
    omega
  intro ws
  induction ws with
  | nil => exact fun start _ _ hstart => hstart
  | cons w ws ih =>
      intro start hlaid hbehind _
      have hpaged := hlaid.paged w List.mem_cons_self
      have hstop := hlaid.stop_le w List.mem_cons_self
      obtain ⟨hfirst, hrest⟩ := List.pairwise_cons.mp hlaid.ordered
      have htail := ih w.stop ⟨fun v hv => hlaid.paged v (List.mem_cons_of_mem _ hv),
        fun v hv => hlaid.stop_le v (List.mem_cons_of_mem _ hv), hrest⟩ hfirst hstop
      have hentry : (Charge.put (bufferedEntry fileId base w)).bytes ≤ w.alignedSize := by
        have hcount : (bufferedEntry fileId base w).pageCount =
            UInt16.ofNat (w.alignedSize / kPageSize) := hpaged.pageCount
        rw [Charge.bytes, MemIndex.entryBytes, hcount, UInt16.toNat_ofNat', kPageSize]
        omega
      have hoffset := hbehind w List.mem_cons_self
      rw [BufferedPendingWrite.stop] at htail
      rw [List.map_cons, List.map_cons, List.sum_cons]
      omega

/-- **A write in flight has at least the bytes of its charges.** -/
theorem sum_bytes_charges_le {out : Multiset ℕ} (h : self.Sound out)
    {io : InflightIo InflightWrite} (hio : io ∈ self.space.inflight) :
    ((self.charges io.write).map Charge.bytes).sum ≤ io.range.length := by
  have hnarrow := h.inflight io hio
  obtain ⟨write, range⟩ := io
  cases write with
  | queued ctx => simpa [charges] using bytes_ctxCharge_le hnarrow
  | putAsync ctx isPut => simpa [charges] using bytes_ctxCharge_le hnarrow
  | waitQueue ctx => simpa [charges] using bytes_ctxCharge_le hnarrow
  | deleteAsync key sequence oldSize => simp [charges, Charge.bytes]
  | buffer b fileId base =>
      obtain ⟨-, -, hused⟩ := hnarrow
      rw [← hused]
      exact sum_bytes_le_of_laid (h.buffers.buffer b).laid fileId base

/-! ### What keeps the balance -/

/-- A change without a completion: the index has the same bytes, the garbage is the same, and
what is put in flight is counted as data. -/
structure Submits (a b : Engine n) : Prop where
  wf : a.memIndex.Wf → b.memIndex.Wf
  live : b.memIndex.liveBytes = a.memIndex.liveBytes
  garbage : b.totalGarbageBytes = a.totalGarbageBytes
  data : b.inflightBytes + a.totalDataBytes ≤ a.inflightBytes + b.totalDataBytes

theorem Submits.balanced (h : self.Submits self') (hb : self.Balanced) : self'.Balanced := by
  refine ⟨h.wf hb.1, ?_⟩
  have hle := hb.2
  have hdata := h.data
  rw [h.live, h.garbage]
  omega

/-- Changes that are no concern of the account. -/
theorem Submits.of_eq (hm : self'.memIndex = self.memIndex)
    (hg : self'.totalGarbageBytes = self.totalGarbageBytes)
    (hd : self'.totalDataBytes = self.totalDataBytes)
    (hi : self'.space.inflight = self.space.inflight) : self.Submits self' where
  wf := fun h => hm ▸ h
  live := by rw [hm]
  garbage := hg
  data := by rw [inflightBytes, hi, hd, inflightBytes]

theorem Submits.refl (self : Engine n) : self.Submits self := .of_eq rfl rfl rfl rfl

theorem Submits.trans (h : self.Submits self') (h' : self'.Submits self'') :
    self.Submits self'' where
  wf := fun hwf => h'.wf (h.wf hwf)
  live := h'.live.trans h.live
  garbage := h'.garbage.trans h.garbage
  data := by
    have h1 := h.data
    have h2 := h'.data
    omega

/-- The change from an engine that differs in what is no concern of the account. -/
theorem Submits.of_same {self₀ : Engine n} (h : self.Submits self')
    (hm : self.memIndex = self₀.memIndex)
    (hg : self.totalGarbageBytes = self₀.totalGarbageBytes)
    (hd : self.totalDataBytes = self₀.totalDataBytes)
    (hi : self.space.inflight = self₀.space.inflight) : self₀.Submits self' :=
  (Submits.of_eq hm hg hd hi).trans h

/-- **What is submitted is counted as data.** -/
theorem submits_submitAt (self : Engine n) (i size : ℕ) (write : FileInfo → InflightWrite) :
    self.Submits (self.submitAt i size write) where
  wf := id
  live := rfl
  garbage := rfl
  data := by
    have hle : size % 2 ^ 32 ≤ size := Nat.mod_le _ _
    simp only [inflightBytes, submitAt, FileSpace.submitAt, List.map_append, List.sum_append,
      List.map_cons, List.map_nil, List.sum_singleton, FileInfo.rangeFor]
    omega

theorem submits_allocateSequence (self : Engine n) : self.Submits self.allocateSequence.1 where
  wf := fun h => ⟨h.unused, h.tag_eq, h.path, h.inj⟩
  live := rfl
  garbage := rfl
  data := le_rfl

/-- **Moves submit.** -/
theorem Moves.submits (h : self.Moves self') : self.Submits self' := by
  refine h.keeps (P := self.Submits) (fun a b hmove hsubmits => hsubmits.trans ?_) (.refl self)
  cases hmove with
  | sequence => exact a.submits_allocateSequence
  | submit i size write => exact a.submits_submitAt i size write
  | rearrange space same => exact .of_eq rfl rfl rfl same

theorem submits_placeBuffered (self : Engine n) (key : UInt64) (size : ℕ) (slot : ℕ × ℕ) :
    self.Submits (self.placeBuffered key size slot).1 :=
  self.submits_allocateSequence.trans (.of_eq rfl rfl rfl rfl)

theorem submits_enqueueWait (self : Engine n) (key : UInt64) (size : ℕ) (error : KvError) :
    self.Submits (self.enqueueWait key size error).1 :=
  self.submits_allocateSequence.trans (.of_eq rfl rfl rfl rfl)

theorem submits_putBuffered (self : Engine n) (key : UInt64) (valueLen : ℕ) :
    self.Submits (self.putBuffered key valueLen).1 := by
  rw [putBuffered]
  split_ifs
  · exact .refl self
  · exact .refl self
  · dsimp only
    split
    · exact (submits_placeBuffered _ _ _ _).of_same rfl rfl rfl rfl
    · split_ifs
      · exact (submits_enqueueWait _ _ _ _).of_same rfl rfl rfl rfl
      · split
        · exact (submits_placeBuffered _ _ _ _).of_same rfl rfl rfl rfl
        · exact (submits_enqueueWait _ _ _ _).of_same rfl rfl rfl rfl

theorem submits_submitBufferTo (self : Engine n) (i buffer : ℕ) :
    self.Submits (self.submitBufferTo i buffer) := self.submits_submitAt _ _ _

theorem submits_failBuffer (self : Engine n) (buffer : ℕ) :
    self.Submits (self.failBuffer buffer).1 := .of_eq rfl rfl rfl rfl

/-- An event of the asynchronous part that is no completion. -/
theorem submits_step {ev : AsyncEvent} {r : Engine n × List WriteEffect}
    (hcomplete : ∀ i ok, ev ≠ .complete i ok) (hbuffer : ∀ allocOk, ev ≠ .submitBuffer allocOk)
    (hr : self.step ev = some r) : self.Submits r.1 := by
  by_cases hsingle : isSingle ev = true
  · exact (moves_step hsingle hr).submits
  · cases ev with
    | putBuffered key valueLen =>
        obtain rfl := Option.some.inj hr
        exact self.submits_putBuffered key valueLen
    | flush =>
        obtain rfl := Option.some.inj hr
        exact .of_eq rfl rfl rfl rfl
    | complete i ok => exact absurd rfl (hcomplete i ok)
    | submitBuffer allocOk => exact absurd rfl (hbuffer allocOk)
    | putAsync _ _ | deleteAsync _ | resume | processWaitQueue | newFileAllocated _
    | checkpointForAlloc _ | allocLog _ => exact absurd rfl hsingle

/-! ### Completions -/

/-- A write that fails charges nothing. -/
theorem books_onComplete_false (self : Engine n) (write : InflightWrite) :
    (self.onComplete false write).1.books = self.books := by
  have hfold : ∀ (fileId base : ℕ) (ws : List BufferedPendingWrite)
      (r : Engine n × List WriteEffect),
      (ws.foldl (completeBuffered fileId base false) r).1 = r.1 := by
    intro fileId base ws
    induction ws with
    | nil => exact fun r => rfl
    | cons w ws ih => exact fun r => (ih _).trans rfl
  cases write with
  | buffer buffer fileId base =>
      rw [onComplete, onBufferIoComplete]
      dsimp only
      rw [releaseBuffer, hfold]
      rfl
  | queued ctx => rfl
  | putAsync ctx isPut => rfl
  | deleteAsync key sequence oldSize => rfl
  | waitQueue ctx => rfl

/-- The data and the writes in flight that the completion of a put leaves. -/
theorem completePut_rest (self : Engine n) (key : UInt64) (entry : MemIndexEntry) :
    (self.completePut key entry).totalDataBytes = self.totalDataBytes ∧
      (self.completePut key entry).space = self.space := by
  rw [completePut, markGarbage]
  cases self.memIndex.findEntry key <;> exact ⟨rfl, rfl⟩

/-- **A completion leaves the data and the other writes in flight.** -/
theorem onComplete_rest (self : Engine n) (ok : Bool) (write : InflightWrite) :
    (self.onComplete ok write).1.totalDataBytes = self.totalDataBytes ∧
      (self.onComplete ok write).1.space = self.space := by
  constructor
  · exact onComplete_keeps (fun e key entry => (e.completePut_rest key entry).1)
      (fun _ _ _ => rfl) (fun _ _ => rfl) self ok write
  · exact onComplete_keeps (fun e key entry => (e.completePut_rest key entry).2)
      (fun _ _ _ => rfl) (fun _ _ => rfl) self ok write

/-- A write leaves the ones in flight with its bytes. -/
theorem sum_length_eraseIdx {l : List (InflightIo InflightWrite)} {i : ℕ}
    {io : InflightIo InflightWrite} (h : l[i]? = some io) :
    io.range.length + ((l.eraseIdx i).map fun io => io.range.length).sum =
      (l.map fun io => io.range.length).sum := by
  obtain ⟨hi, rfl⟩ := List.getElem?_eq_some_iff.mp h
  have hperm := ((List.getElem_cons_eraseIdx_perm hi).map fun io => io.range.length).sum_eq
  rw [← hperm, List.map_cons, List.sum_cons]

/-- **A completion with fair charges keeps the balance.** -/
theorem balanced_completeInflight {out : Multiset ℕ} (h : self.Sound out) (hb : self.Balanced)
    {i : ℕ} {ok : Bool} {r : Engine n × List WriteEffect}
    (hr : self.completeInflight i ok = some r)
    (hfair : ok = true → ∀ io, self.space.inflight[i]? = some io →
      Charge.AllFair self.memIndex (self.charges io.write)) : r.1.Balanced := by
  obtain ⟨io, hio, rfl⟩ := Option.map_eq_some_iff.mp hr
  have herase := sum_length_eraseIdx hio
  have hcharges := sum_bytes_charges_le h (List.mem_of_getElem? hio)
  obtain ⟨hwf, hle⟩ := hb
  rw [inflightBytes] at hle
  -- the engine without the write
  let without : Engine n := { self with
    space := self.space.eraseInflight i
    pendingForegroundCount := self.pendingForegroundCount - 1 }
  obtain ⟨hdata, hspace⟩ := without.onComplete_rest ok io.write
  have hbooks : (without.onComplete ok io.write).1.books.1.Wf ∧
      (without.onComplete ok io.write).1.books.2 +
        (without.onComplete ok io.write).1.books.1.liveBytes ≤
          self.totalGarbageBytes + self.memIndex.liveBytes + io.range.length := by
    cases ok with
    | true =>
        obtain ⟨hwf', hle'⟩ := Charge.AllFair.balance (p := without.books) hwf (hfair rfl io hio)
        have hsame : without.charges io.write = self.charges io.write := by
          cases io.write <;> rfl
        rw [without.books_onComplete, hsame]
        exact ⟨hwf', hle'.trans (Nat.add_le_add_left hcharges _)⟩
    | false =>
        rw [without.books_onComplete_false]
        exact ⟨hwf, Nat.le_add_right _ _⟩
  have hsum : (without.onComplete ok io.write).1.totalGarbageBytes +
      (without.onComplete ok io.write).1.memIndex.liveBytes ≤
        self.totalGarbageBytes + self.memIndex.liveBytes + io.range.length := hbooks.2
  have hinflight : (without.onComplete ok io.write).1.inflightBytes =
      ((self.space.inflight.eraseIdx i).map fun io => io.range.length).sum := by
    rw [inflightBytes, hspace]
    rfl
  have hdata' : (without.onComplete ok io.write).1.totalDataBytes = self.totalDataBytes := hdata
  refine ⟨hbooks.1, ?_⟩
  change (without.onComplete ok io.write).1.totalGarbageBytes +
    (without.onComplete ok io.write).1.memIndex.liveBytes +
    (without.onComplete ok io.write).1.inflightBytes ≤
      (without.onComplete ok io.write).1.totalDataBytes
  omega

/-- **The end of a `put` or `del` with a fair charge keeps the balance.** -/
theorem balanced_endSync (hb : self.Balanced) {w : SyncWrite} (hw : w.req.Counted) {ok : Bool}
    (hfair : ok = true → (ctxCharge (ctxFor w.file w.req)).Fair self.memIndex) :
    (self.endSync w ok).1.Balanced := by
  cases ok with
  | false => exact hb
  | true =>
      obtain ⟨hwf, hle⟩ := hb
      obtain ⟨hwf', hle'⟩ := (hfair rfl).balance hwf
      have hbytes : (ctxCharge (ctxFor w.file w.req)).bytes ≤ w.req.alignedSize :=
        (bytes_ctxCharge_le (entryFor_narrows hw)).trans (Nat.mod_le _ _)
      have hbooks : (self.endSync w true).1.books =
          Charge.applyAll self.books [ctxCharge (ctxFor w.file w.req)] := by
        rw [← self.books_onQueuedWriteComplete, endSync, if_pos rfl, onQueuedWriteComplete,
          if_pos rfl]
        rfl
      have hrest : (self.endSync w true).1.totalDataBytes =
            self.totalDataBytes + w.req.alignedSize ∧
          (self.endSync w true).1.inflightBytes = self.inflightBytes := by
        obtain ⟨hdata, hspace⟩ := self.onComplete_rest true (.queued (ctxFor w.file w.req))
        rw [onComplete, onQueuedWriteComplete, if_pos rfl] at hdata hspace
        rw [endSync, if_pos rfl]
        exact ⟨congrArg (· + w.req.alignedSize) hdata,
          congrArg (fun space => (space.inflight.map fun io => io.range.length).sum) hspace⟩
      obtain ⟨hmem, hgarbage⟩ := Prod.mk.inj hbooks
      refine ⟨?_, ?_⟩
      · rw [hmem]
        exact hwf'
      · rw [hmem, hgarbage, hrest.1, hrest.2]
        change self.totalGarbageBytes + (ctxCharge (ctxFor w.file w.req)).amount self.memIndex +
          ((ctxCharge (ctxFor w.file w.req)).apply self.memIndex).liveBytes + _ ≤ _
        omega

end Engine

namespace EngineSystem

variable {s s' : EngineSystem n}

/-! ### The account along a run -/

/-- The charges of a `put` or `del` that waits for its IO. -/
def frameCharges : Frame → List Charge
  | .writing w => [Engine.ctxCharge (Engine.ctxFor w.file w.req)]
  | _ => []

/-- The charges of the writes that an event completes. -/
def eventCharges (s : EngineSystem n) : EngineEvent n → List Charge
  | .async (.complete i true) =>
      (s.engine.space.inflight[i]?.map fun io => s.engine.charges io.write).getD []
  | .wake true => (s.stack.head?.map frameCharges).getD []
  | _ => []

/-- The index that recovery builds. -/
def recovered? : EngineEvent n → Option (MemIndex n)
  | .reopen recovered _ => some recovered
  | _ => none

/-- **The condition**: the writes that an event completes make fair charges, and an index that
recovery builds fits the account on disk. -/
def ChargesFairly (s : EngineSystem n) (ev : EngineEvent n) : Prop :=
  Charge.AllFair s.engine.memIndex (s.eventCharges ev) ∧
    ∀ recovered ∈ recovered? ev, recovered.Wf ∧
      s.persisted.totalGarbageBytes + recovered.liveBytes ≤ s.persisted.totalDataBytes

instance (s : EngineSystem n) (ev : EngineEvent n) : Decidable (s.ChargesFairly ev) :=
  inferInstanceAs (Decidable (_ ∧ ∀ recovered ∈ recovered? ev, _))

theorem submits_allocateNewFile (s : EngineSystem n) (caller : AllocCaller) :
    s.engine.Submits (s.allocateNewFile caller).engine := by
  rw [allocateNewFile]
  split_ifs
  · exact .refl s.engine
  · exact .of_eq rfl rfl rfl rfl

theorem submits_sealAndAllocate (s : EngineSystem n) (caller : AllocCaller) :
    s.engine.Submits (s.sealAndAllocate caller).engine :=
  s.engine.moves_sealActiveFile.submits.trans
    (submits_allocateNewFile { s with engine := s.engine.sealActiveFile } caller)

theorem submits_callSync (s : EngineSystem n) (r : Except KvError SyncRequest) :
    s.engine.Submits (s.callSync r).engine := by
  cases r with
  | error error => exact .refl s.engine
  | ok r =>
      rw [callSync]
      split
      · exact s.engine.submits_allocateSequence
      · exact s.submits_sealAndAllocate _

theorem submits_callSubmitBuffer (s : EngineSystem n) :
    s.engine.Submits s.callSubmitBuffer.engine := by
  rw [callSubmitBuffer]
  split
  · exact .refl s.engine
  · next buffer rest _ =>
      have htake : s.engine.Submits (s.engine.takeBuffer rest) := .of_eq rfl rfl rfl rfl
      dsimp only
      split_ifs
      · exact htake
      · split
        · exact htake.trans (Engine.submits_submitBufferTo _ _ _)
        · exact htake.trans
            (submits_sealAndAllocate { s with engine := s.engine.takeBuffer rest } _)

theorem submits_useFile (s : EngineSystem n) (i : ℕ) (caller : AllocCaller) :
    s.engine.Submits (s.useFile i caller).engine := by
  have hactivate : s.engine.Submits { s.engine with space := s.engine.space.activate i } :=
    .of_eq rfl rfl rfl rfl
  cases caller with
  | sync r => exact hactivate.trans (Engine.submits_allocateSequence _)
  | buffer buffer => exact hactivate.trans (Engine.submits_submitBufferTo _ _ _)
  | compaction source => exact .refl s.engine

theorem submits_handleNoSpace (s : EngineSystem n) (caller : AllocCaller) :
    s.engine.Submits (s.handleNoSpace caller).engine := by
  cases caller with
  | buffer buffer => exact s.engine.submits_failBuffer buffer
  | sync r => exact .refl s.engine
  | compaction source => exact .refl s.engine

/-- The innermost call goes on. -/
theorem balanced_wake (h : s.Sound) (hb : s.engine.Balanced) {ok : Bool}
    (hc : s.ChargesFairly (.wake ok)) (hs : s.wake ok = some s') : s'.engine.Balanced := by
  rw [wake] at hs
  split at hs
  · cases hs
  · next caller rest hstack =>
      obtain rfl := Option.some.inj hs
      have hadd : s.engine.Submits (addNewFile { s with stack := rest } caller).engine :=
        .of_eq rfl rfl rfl rfl
      exact hadd.balanced hb
  · next i caller rest hstack =>
      cases ok with
      | true =>
          obtain rfl := Option.some.inj hs
          have hfinish : s.engine.Submits
              { s.engine with space := s.engine.space.finishNewFile i } := .of_eq rfl rfl rfl rfl
          exact (hfinish.trans (submits_useFile { s with
            engine := { s.engine with space := s.engine.space.finishNewFile i }
            stack := rest } i caller)).balanced hb
      | false =>
          obtain rfl := Option.some.inj hs
          have hdrop : s.engine.Submits { s.engine with space := s.engine.space.dropNewFile } :=
            .of_eq rfl rfl rfl rfl
          exact (hdrop.trans (submits_handleNoSpace { s with
            engine := { s.engine with space := s.engine.space.dropNewFile }
            stack := rest } caller)).balanced hb
  · next w rest hstack =>
      obtain ⟨-, hs⟩ := Option.ite_none_left_eq_some.mp hs
      obtain rfl := Option.some.inj hs
      refine Engine.balanced_endSync hb (h.waits w (hstack ▸ List.mem_cons_self)) fun hok => ?_
      subst hok
      have hcharges := hc.1
      rw [eventCharges, hstack] at hcharges
      exact hcharges.1

/-- **Every event that charges fairly keeps the balance.** -/
theorem balanced_step {ev : EngineEvent n} (h : s.Sound) (hb : s.engine.Balanced)
    (hc : s.ChargesFairly ev) (hs : s.step ev = some s') : s'.engine.Balanced := by
  cases ev with
  | async ev =>
      obtain ⟨hcan, r, hr, rfl⟩ := step_async hs
      by_cases hcomplete : ∃ i ok, ev = .complete i ok
      · obtain ⟨i, ok, rfl⟩ := hcomplete
        refine Engine.balanced_completeInflight h.engine hb hr fun hok io hio => ?_
        subst hok
        have hcharges := hc.1
        rw [eventCharges, hio] at hcharges
        exact hcharges
      · push Not at hcomplete
        refine (Engine.submits_step hcomplete ?_ hr).balanced hb
        rintro allocOk rfl
        cases hcan
  | put key valueLen =>
      obtain rfl := Option.some.inj hs
      exact (s.submits_callSync _).balanced hb
  | del key =>
      obtain rfl := Option.some.inj hs
      exact (s.submits_callSync _).balanced hb
  | submitBuffer =>
      obtain rfl := Option.some.inj hs
      exact s.submits_callSubmitBuffer.balanced hb
  | compact source =>
      obtain ⟨-, hs⟩ := Option.ite_none_right_eq_some.mp hs
      obtain rfl := Option.some.inj hs
      exact (s.submits_allocateNewFile _).balanced hb
  | wake ok => exact balanced_wake h hb hc hs
  | markSource k compacting =>
      obtain ⟨run, -, rfl⟩ := Option.map_eq_some_iff.mp hs
      exact hb
  | migrate k size ok =>
      obtain ⟨run, -, hs⟩ := Option.bind_eq_some_iff.mp hs
      dsimp only at hs
      split_ifs at hs
      · obtain rfl := Option.some.inj hs
        exact hb
      · obtain rfl := Option.some.inj hs
        exact hb
  | discard k =>
      obtain ⟨run, -, rfl⟩ := Option.map_eq_some_iff.mp hs
      exact hb
  | startCheckpoint =>
      obtain rfl := Option.some.inj hs
      exact hb
  | updateSuperblock =>
      obtain rfl := Option.some.inj hs
      exact hb
  | superblockWritten ok =>
      obtain ⟨sb, -, rfl⟩ := Option.map_eq_some_iff.mp hs
      exact hb
  | close ok =>
      obtain ⟨-, hs⟩ := Option.ite_none_right_eq_some.mp hs
      obtain rfl := Option.some.inj hs
      exact hb
  | reopen recovered logged =>
      obtain ⟨-, hs⟩ := Option.ite_none_right_eq_some.mp hs
      obtain rfl := Option.some.inj hs
      obtain ⟨hwf, hle⟩ := hc.2 recovered rfl
      refine ⟨hwf, ?_⟩
      have hnone : (s.reopened recovered logged).engine.inflightBytes = 0 := by
        have hinflight : (s.reopened recovered logged).engine.space.inflight = [] :=
          FileSpace.reopened_inflight _ _ _ _
        rw [Engine.inflightBytes, hinflight]
        rfl
      rw [hnone]
      exact hle

/-- **Garbage and live bytes do not exceed the data**: in every run of the engine whose events
charge fairly, in every state and in particular in those without an operation in flight. -/
theorem space_accounted {dataFileSize bufferCount blobPages : ℕ} {s : EngineSystem n}
    {evs : List (EngineEvent n)}
    (hc : (engineMachine n).Meets ChargesFairly
      (created (MemIndex.fresh n) dataFileSize bufferCount blobPages) evs)
    (hr : (engineMachine n).run
      (created (MemIndex.fresh n) dataFileSize bufferCount blobPages) evs = some s) :
    s.engine.totalGarbageBytes + s.engine.memIndex.liveBytes ≤ s.engine.totalDataBytes := by
  have hstart : (created (MemIndex.fresh n) dataFileSize bufferCount blobPages).engine.Balanced :=
    ⟨MemIndex.fresh_wf n, by
      simp [Engine.inflightBytes, created, FileSpace.created, MemIndex.liveBytes, MemIndex.LiveAt,
        MemIndex.Occupied, MemIndex.fresh]⟩
  obtain ⟨-, -, hle⟩ := (engineMachine n).run_invariant (fun s => s.Sound ∧ s.engine.Balanced)
    (fun s ev s' h hev hs => ⟨sound_step h.1 hs, balanced_step h.1 h.2 hev hs⟩)
    ⟨.created .., hstart⟩ hc hr
  omega

/-- A put, another one that replaces it, and a delete. -/
def putTwiceThenDelete : List (EngineEvent 3) :=
  [.put 1 100, .wake true, .async (.putAsync 1 [8192]), .async (.complete 0 true),
    .async (.deleteAsync 1), .async (.complete 0 true)]

/-- One after the other they are accounted for. -/
theorem space_accounted_putTwiceThenDelete :
    ∃ s, (engineMachine 3).run (created (MemIndex.fresh 3) (2 ^ 33) kMinBufferCount (2 ^ 21))
        putTwiceThenDelete = some s ∧
      s.engine.totalGarbageBytes + s.engine.memIndex.liveBytes ≤ s.engine.totalDataBytes := by
  have hmeets : (engineMachine 3).Meets ChargesFairly
      (created (MemIndex.fresh 3) (2 ^ 33) kMinBufferCount (2 ^ 21)) putTwiceThenDelete := by
    decide +kernel
  have hrun : ((engineMachine 3).run
      (created (MemIndex.fresh 3) (2 ^ 33) kMinBufferCount (2 ^ 21))
      putTwiceThenDelete).isSome := by
    decide +kernel
  obtain ⟨s, hs⟩ := Option.isSome_iff_exists.mp hrun
  exact ⟨s, hs, space_accounted hmeets hs⟩

/-- No operation waits or is in flight. -/
def isIdle (s : EngineSystem n) : Bool :=
  s.stack.isEmpty && s.engine.space.inflight.isEmpty && s.engine.pendingWriteQueue.isEmpty &&
    s.engine.waitQueue.isEmpty && s.engine.bufferPendingWrites.isEmpty

/-- A record of three pages, and two deletes of its key in flight at once. -/
def deleteTwice : List (EngineEvent 3) :=
  [.put 1 9000, .wake true, .async (.deleteAsync 1), .async (.deleteAsync 1),
    .async (.complete 0 true), .async (.complete 0 true)]

/-- **Two deletes charge one record twice**: with nothing in flight, six pages are garbage of
the five that were written. -/
theorem deletes_charge_twice :
    ∃ s, (engineMachine 3).run (created (MemIndex.fresh 3) (2 ^ 33) kMinBufferCount (2 ^ 21))
        deleteTwice = some s ∧ s.isIdle = true ∧
      s.engine.totalGarbageBytes = 6 * kPageSize ∧ s.engine.totalDataBytes = 5 * kPageSize ∧
      ¬ s.engine.totalGarbageBytes + s.engine.memIndex.liveBytes ≤ s.engine.totalDataBytes := by
  have hrun : ((engineMachine 3).run
      (created (MemIndex.fresh 3) (2 ^ 33) kMinBufferCount (2 ^ 21)) deleteTwice).map
      (fun s => (s.isIdle, s.engine.totalGarbageBytes, s.engine.totalDataBytes)) =
        some (true, 6 * kPageSize, 5 * kPageSize) := by
    decide +kernel
  obtain ⟨s, hs, heq⟩ := Option.map_eq_some_iff.mp hrun
  simp only [Prod.mk.injEq] at heq
  obtain ⟨hidle, hgarbage, hdata⟩ := heq
  refine ⟨s, hs, hidle, hgarbage, hdata, ?_⟩
  rw [hgarbage, hdata, kPageSize]
  omega

end EngineSystem

end SpdkKv
