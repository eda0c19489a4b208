import SpdkKv.RelatedTables

/-!
# Switching to Copies and Back

The index of a compaction beside the one that there would be without it: every live entry is the
same in both, or the task has switched it to a copy. The switch of `update_indices` adds copies,
and `revert_index_update` for all of them leads back.

## Main results

* `MemIndex.Related.updateIndices`: **the switch**.
* `MemIndex.Related.revertIndexUpdates`: **the way back**.
-/

namespace SpdkKv

/-- The first entry is the second one, or that entry switched to one of the copies; nothing is
said of tombstones. -/
def Switched (copies : List MigratedEntry) (e e' : MemIndexEntry) : Prop :=
  e'.deleted = false → e = e' ∨ ∃ g ∈ copies, g.Covers e' ∧ e'.pageCount = g.pageCount ∧
    e = e'.moveTo g.newFileId g.newOffsetIndex g.pageCount

/-- A compaction copies from one file to another one. -/
structure BetweenFiles (src dest : UInt16) : Prop where
  src_lt : src.toNat < 1024
  dest_lt : dest.toNat < 1024
  ne : dest ≠ src

namespace Switched

variable {copies : List MigratedEntry} {e e' : MemIndexEntry} {src dest : UInt16}

theorem refl (copies : List MigratedEntry) (e : MemIndexEntry) : Switched copies e e :=
  fun _ => .inl rfl

theorem of_deleted (copies : List MigratedEntry) (e e' : MemIndexEntry)
    (h : e'.deleted = true) : Switched copies e e' := fun hlive => by
  cases h.symm.trans hlive

theorem mono {copies' : List MigratedEntry} (hle : ∀ g ∈ copies, g ∈ copies')
    (h : Switched copies e e') : Switched copies' e e' := fun hlive =>
  (h hlive).imp id fun ⟨g, hg, hmoved⟩ => ⟨g, hle g hg, hmoved⟩

/-- The file of an entry that was moved. -/
theorem fileId_moveTo (e : MemIndexEntry) {fileId : UInt16} (h : fileId.toNat < 1024)
    (offsetIndex : UInt32) (pageCount : UInt16) :
    (e.moveTo fileId offsetIndex pageCount).fileId.toNat = fileId.toNat := by
  show fileId.toNat % 2 ^ 10 = fileId.toNat
  exact Nat.mod_eq_of_lt h

/-- The page of an entry that was moved, if the index can name it. -/
theorem offsetIndex_moveTo (e : MemIndexEntry) (fileId : UInt16) {offsetIndex : UInt32}
    (h : offsetIndex.toNat < 2 ^ 21) (pageCount : UInt16) :
    (e.moveTo fileId offsetIndex pageCount).offsetIndex.toNat = offsetIndex.toNat := by
  show offsetIndex.toNat % 2 ^ 21 = offsetIndex.toNat
  exact Nat.mod_eq_of_lt h

/-- The place that an entry lies at. -/
theorem of_liesAt {fileId : UInt16} {offsetIndex : UInt32}
    (h : e.liesAt fileId offsetIndex = true) :
    e.fileId.toNat = fileId.toNat ∧ e.offsetIndex.toNat = offsetIndex.toNat := by
  simpa [MemIndexEntry.liesAt] using h

/-- An entry that is in use outside of the destination was not switched. -/
theorem eq_of_fileId_ne (hf : BetweenFiles src dest) (hnew : ∀ g ∈ copies, g.newFileId = dest)
    (h : Switched copies e e') (hlive : e'.deleted = false) (hne : e.fileId.toNat ≠ dest.toNat) :
    e = e' := by
  refine (h hlive).resolve_right ?_
  rintro ⟨g, hg, -, -, rfl⟩
  rw [hnew g hg] at hne
  exact hne (fileId_moveTo e' hf.dest_lt _ _)

end Switched

/-- Moving an entry back to its place. -/
theorem MemIndexEntry.moveTo_back {e : MemIndexEntry} {g : MigratedEntry} (h : g.Covers e)
    (hcount : e.pageCount = g.pageCount) :
    (e.moveTo g.newFileId g.newOffsetIndex g.pageCount).moveTo g.oldFileId g.oldOffsetIndex
      g.pageCount = e := by
  obtain ⟨hfile, hoffset⟩ := Switched.of_liesAt h.2
  have hfile' : BitVec.ofNat 10 g.oldFileId.toNat = e.fileId := by
    rw [← hfile, BitVec.ofNat_toNat, BitVec.setWidth_eq]
  have hoffset' : BitVec.ofNat 21 g.oldOffsetIndex.toNat = e.offsetIndex := by
    rw [← hoffset, BitVec.ofNat_toNat, BitVec.setWidth_eq]
  simp only [moveTo, hfile', hoffset', ← hcount]

namespace MemIndex

namespace Related

variable {n : ℕ} {m m' : MemIndex n} {copies : List MigratedEntry} {g : MigratedEntry}
  {src dest : UInt16}

/-- A copy goes from the source to the destination, and the entries of its record in the index
have its length. -/
structure CopiedFrom (src dest : UInt16) (m' : MemIndex n) (g : MigratedEntry) : Prop where
  oldFile : g.oldFileId = src
  newFile : g.newFileId = dest
  count : AllUsed (fun e => e.deleted = false → g.Covers e → e.pageCount = g.pageCount) m'

/-- The slot that a lookup leads to is in use, and its entry is live and has the key. -/
theorem of_find (hm' : m'.Wf) {key : UInt64} {i : Fin (2 ^ n)} (h : m'.find key = some i) :
    m'.vacant i = false ∧ (m'.entries i).key = key ∧ (m'.entries i).deleted = false := by
  obtain ⟨hused, hkey, hlive⟩ := hm'.of_find h
  exact ⟨Bool.eq_false_iff.mpr fun hv => (hm'.vacant_iff i).mp hv hused, hkey, hlive⟩

/-- Switching one entry. -/
theorem updateIndex (hf : BetweenFiles src dest) (hm' : m'.Wf)
    (h : Related (Switched copies) m m') (hnew : ∀ h ∈ copies, h.newFileId = dest)
    (hg : CopiedFrom src dest m' g) :
    Related (Switched (copies ++ [g])) (m.updateIndex g) m' := by
  have hmono : ∀ {e e'}, Switched copies e e' → Switched (copies ++ [g]) e e' :=
    Switched.mono fun _ hmem => List.mem_append_left _ hmem
  refine h.changeFound (fun e => ⟨⟨rfl, rfl, rfl⟩, rfl⟩) (fun i hi htest => ?_)
    fun i hi _ => hmono (h.used i hi)
  obtain ⟨hused, hkey, hlive⟩ := of_find hm' hi
  have hplace := Switched.of_liesAt htest
  have hsame : m.entries i = m'.entries i := by
    refine (h.used i hused).eq_of_fileId_ne hf hnew hlive ?_
    rw [hplace.1, hg.oldFile]
    exact fun heq => hf.ne (UInt16.toNat_inj.mp heq).symm
  rw [hsame] at htest ⊢
  have hcovers : g.Covers (m'.entries i) := ⟨hkey.symm, htest⟩
  exact fun _ => .inr ⟨g, List.mem_append_right _ List.mem_cons_self, hcovers,
    hg.count i hused hlive hcovers, rfl⟩

/-- **The switch** to copies of records. -/
theorem updateIndices (hf : BetweenFiles src dest) (hm' : m'.Wf)
    (h : Related (Switched copies) m m') (hnew : ∀ h ∈ copies, h.newFileId = dest)
    {moved : List MigratedEntry} (hmoved : ∀ g ∈ moved, CopiedFrom src dest m' g) :
    Related (Switched (copies ++ moved)) (m.updateIndices moved) m' := by
  induction moved generalizing m copies with
  | nil => rwa [List.append_nil]
  | cons g moved ih =>
      obtain ⟨hg, hrest⟩ := List.forall_mem_cons.mp hmoved
      have hnext := ih (h.updateIndex hf hm' hnew hg) (fun c hc => ?_) hrest
      · rwa [List.append_assoc, List.singleton_append] at hnext
      · rcases List.mem_append.mp hc with hold | hlast
        · exact hnew c hold
        · rw [List.mem_singleton.mp hlast]
          exact hg.newFile

/-- A copy whose place the index can name. -/
structure Named (dest : UInt16) (g : MigratedEntry) : Prop where
  newFile : g.newFileId = dest
  lt : g.newOffsetIndex.toNat < 2 ^ 21

/-- No live entry of the index lies in the destination. -/
def AvoidsFile (dest : UInt16) (m' : MemIndex n) : Prop :=
  AllUsed (fun e => e.deleted = false → e.fileId.toNat ≠ dest.toNat) m'

/-- Taking one switch back: no other copy lies at the same page. -/
theorem revertIndexUpdate (hf : BetweenFiles src dest) (hm' : m'.Wf) (havoids : AvoidsFile dest m')
    (h : Related (Switched (g :: copies)) m m')
    (hnamed : ∀ h ∈ g :: copies, Named dest h)
    (hfirst : ∀ h ∈ copies, g.newOffsetIndex.toNat < h.newOffsetIndex.toNat) :
    Related (Switched copies) (m.revertIndexUpdate g) m' := by
  have hnew : ∀ h ∈ g :: copies, h.newFileId = dest := fun c hc => (hnamed c hc).newFile
  have hg := hnamed g List.mem_cons_self
  refine h.changeFound (fun e => ⟨⟨rfl, rfl, rfl⟩, rfl⟩) (fun i hi htest => ?_)
    fun i hi htest hlive => ?_
  · obtain ⟨hused, hkey, hlive⟩ := of_find hm' hi
    obtain ⟨hfile, hoffset⟩ := Switched.of_liesAt htest
    rcases h.used i hused hlive with hsame | ⟨c, hc, hcovers, hcount, hmoved⟩
    · rw [hsame, hg.newFile] at hfile
      exact absurd hfile (havoids i hused hlive)
    · -- the entry was switched to this copy
      rw [hmoved, Switched.offsetIndex_moveTo _ _ (hnamed c hc).lt] at hoffset
      obtain rfl : c = g := by
        rcases List.mem_cons.mp hc with heq | hrest
        · exact heq
        · exact absurd hoffset (hfirst c hrest).ne'
      rw [hmoved, MemIndexEntry.moveTo_back hcovers hcount]
      exact .refl _ _
  · rcases h.used i hi hlive with hsame | ⟨c, hc, hcovers, hcount, hmoved⟩
    · exact .inl hsame
    · rcases List.mem_cons.mp hc with rfl | hrest
      · -- an entry that was switched to this copy is found
        have hoccupied : m'.Occupied i := by
          by_contra hno
          cases hi.symm.trans ((hm'.vacant_iff i).mpr hno)
        have hfound : m'.find c.key = some i := hm'.find_eq hoccupied hcovers.1.symm hlive
        have hlies : (m.entries i).liesAt c.newFileId c.newOffsetIndex = true := by
          rw [hmoved, MemIndexEntry.liesAt, hg.newFile, Switched.fileId_moveTo _ hf.dest_lt,
            Switched.offsetIndex_moveTo _ _ hg.lt]
          simp
        cases hlies.symm.trans (htest hfound)
      · exact .inr ⟨c, hrest, hcovers, hcount, hmoved⟩

/-- Where no entry was switched, there is nothing to take back. -/
theorem revertIndexUpdate_of_none (hm' : m'.Wf) (havoids : AvoidsFile dest m')
    (h : Related (Switched []) m m') (hg : g.newFileId = dest) :
    Related (Switched []) (m.revertIndexUpdate g) m' := by
  refine h.changeFound (fun e => ⟨⟨rfl, rfl, rfl⟩, rfl⟩) (fun i hi htest => ?_)
    fun i hi _ => h.used i hi
  obtain ⟨hused, hkey, hlive⟩ := of_find hm' hi
  have hfile := (Switched.of_liesAt htest).1
  rcases h.used i hused hlive with hsame | ⟨c, hc, -⟩
  · rw [hsame, hg] at hfile
    exact absurd hfile (havoids i hused hlive)
  · exact absurd hc List.not_mem_nil

/-- **The way back**: taking all switches back, and whatever else was copied. -/
theorem revertIndexUpdates (hf : BetweenFiles src dest) (hm' : m'.Wf)
    (havoids : AvoidsFile dest m') (h : Related (Switched copies) m m')
    (hnamed : ∀ h ∈ copies, Named dest h)
    (hordered : copies.Pairwise fun g h => g.newOffsetIndex.toNat < h.newOffsetIndex.toNat)
    {others : List MigratedEntry} (hothers : ∀ g ∈ others, g.newFileId = dest) :
    Related (Switched []) ((copies ++ others).foldl MemIndex.revertIndexUpdate m) m' := by
  induction copies generalizing m with
  | nil =>
      rw [List.nil_append]
      induction others generalizing m with
      | nil => exact h
      | cons g others ih =>
          obtain ⟨hg, hrest⟩ := List.forall_mem_cons.mp hothers
          exact ih hrest (revertIndexUpdate_of_none hm' havoids h hg)
  | cons g copies ih =>
      obtain ⟨hfirst, hrest⟩ := List.pairwise_cons.mp hordered
      exact ih (revertIndexUpdate hf hm' havoids h hnamed hfirst)
        (List.forall_mem_cons.mp hnamed).2 hrest

end Related

end MemIndex

end SpdkKv
