import SpdkKv.Entry
import SpdkKv.Lib.Machine

/-!
# The Two Copies of the Superblock

`Engine::write_superblock` writes the superblock first to the backup and then to the
primary copy, `Engine::load_superblock` takes the primary copy if its magic number and its
checksum are right and the backup otherwise. Neither copy is repaired when it is found
damaged. A crash, or an IO error, can leave the copy that is being written with any
contents, as long as these are a whole superblock or fail the check.

## Main results

* `readSuperblock_image`: a superblock that was written passes the check.
* `load_after_crash`: **after every crash a superblock is loaded that is the last one
  written successfully or a later one**, in runs in which the backup is never damaged while
  the primary copy is.
* `second_crash_loses_superblock`: a second crash leaves no superblock at all.
-/

namespace SpdkKv

/-- Magic number of a superblock, "SPKV". -/
def kSuperblockMagic : UInt32 := 0x53504B56

/-- Size of a `Superblock`. -/
def sizeofSuperblock : ℕ := 41376

/-- A superblock in memory: the version, the update sequence and the other fields in front
of the checksum. The magic number never changes. -/
@[ext] structure Superblock where
  version : UInt32
  sequence : UInt64
  fields : List UInt8
  length_fields : fields.length = sizeofSuperblock - 20

namespace Superblock

/-- The bytes in front of the checksum. -/
def data (sb : Superblock) : List UInt8 :=
  leBytes 4 kSuperblockMagic.toNat ++ (leBytes 4 sb.version.toNat ++
    (leBytes 8 sb.sequence.toNat ++ sb.fields))

/-- The contents of the buffer that is written to a copy. -/
def image (sb : Superblock) : List UInt8 :=
  sb.data ++ (leBytes 4 (Crc32.calculate sb.data).toNat ++
    List.replicate (alignUp sizeofSuperblock kPageSize - sizeofSuperblock) 0)

end Superblock

/-- The checks of `load_superblock` on a buffer. -/
def readSuperblock (buf : List UInt8) : Option Superblock :=
  if h : sizeofSuperblock ≤ buf.length ∧ readU32 buf 0 = kSuperblockMagic ∧
      readU32 buf (sizeofSuperblock - 4) =
        Crc32.calculate (buf.take (sizeofSuperblock - 4)) then
    some {
      version := readU32 buf 4
      sequence := readU64 buf 8
      fields := slice buf 16 (sizeofSuperblock - 20)
      length_fields := by
        rw [slice, List.length_take, List.length_drop]
        have := h.1
        rw [sizeofSuperblock] at this ⊢
        omega }
  else none

/-- `load_superblock`: what the two reads of the copies return; `none` is a read error. -/
def loadSuperblock (primary backup : Option (List UInt8)) : Option Superblock :=
  match primary.bind readSuperblock with
  | some sb => some sb
  | none => backup.bind readSuperblock

/-! ### What was written is read back -/

namespace Superblock

variable (sb : Superblock)

theorem length_data : sb.data.length = sizeofSuperblock - 4 := by
  have := sb.length_fields
  simp only [data, List.length_append, length_leBytes]
  rw [sizeofSuperblock] at this ⊢
  omega

/-- The fields in front of the checksum are found in everything that begins with them. -/
theorem readers_data (rest : List UInt8) :
    readU32 (sb.data ++ rest) 0 = kSuperblockMagic ∧
      readU32 (sb.data ++ rest) 4 = sb.version ∧ readU64 (sb.data ++ rest) 8 = sb.sequence ∧
      slice (sb.data ++ rest) 16 (sizeofSuperblock - 20) = sb.fields := by
  have hm : kSuperblockMagic.toNat < 256 ^ 4 := kSuperblockMagic.toNat_lt
  have hv : sb.version.toNat < 256 ^ 4 := sb.version.toNat_lt
  have hs : sb.sequence.toNat < 256 ^ 8 := sb.sequence.toNat_lt
  simp only [data, List.append_assoc]
  refine ⟨?_, ?_, ?_, ?_⟩
  · have h := @fieldAt_append [] (leBytes 4 kSuperblockMagic.toNat) (leBytes 4 sb.version.toNat ++
      (leBytes 8 sb.sequence.toNat ++ (sb.fields ++ rest))) 0 4 rfl (by simp)
    rw [List.nil_append] at h
    rw [readU32, h, leNat_leBytes_of_lt hm, UInt32.ofNat_toNat]
  · rw [readU32, fieldAt_append (by simp) (by simp), leNat_leBytes_of_lt hv, UInt32.ofNat_toNat]
  · rw [← List.append_assoc, readU64, fieldAt_append (by simp) (by simp),
      leNat_leBytes_of_lt hs, UInt64.ofNat_toNat]
  · have hpre : (leBytes 4 kSuperblockMagic.toNat ++ (leBytes 4 sb.version.toNat ++
        leBytes 8 sb.sequence.toNat)).length = 16 := by simp
    rw [← List.append_assoc (leBytes 4 sb.version.toNat), ← List.append_assoc, slice,
      List.drop_append_of_le_length (by omega), ← hpre, List.drop_length, List.nil_append,
      ← sb.length_fields, List.take_append_of_le_length (le_refl _), List.take_length]

/-- **A superblock that was written passes the check.** -/
theorem readSuperblock_image : readSuperblock sb.image = some sb := by
  have hl := sb.length_data
  have hcrc : (Crc32.calculate sb.data).toNat < 256 ^ 4 := (Crc32.calculate sb.data).toNat_lt
  obtain ⟨hmagic, hversion, hsequence, hfields⟩ := sb.readers_data
    (leBytes 4 (Crc32.calculate sb.data).toNat ++
      List.replicate (alignUp sizeofSuperblock kPageSize - sizeofSuperblock) 0)
  have hlen : sizeofSuperblock ≤ sb.image.length := by
    simp only [image, List.length_append, length_leBytes, hl, List.length_replicate]
    rw [sizeofSuperblock]
    omega
  have hstored : readU32 sb.image (sizeofSuperblock - 4) = Crc32.calculate sb.data := by
    rw [readU32, image, fieldAt_append hl (by simp), leNat_leBytes_of_lt hcrc,
      UInt32.ofNat_toNat]
  have htake : sb.image.take (sizeofSuperblock - 4) = sb.data := by
    rw [image, List.take_append_of_le_length (by omega), ← hl, List.take_length]
  have hcheck : sizeofSuperblock ≤ sb.image.length ∧ readU32 sb.image 0 = kSuperblockMagic ∧
      readU32 sb.image (sizeofSuperblock - 4) =
        Crc32.calculate (sb.image.take (sizeofSuperblock - 4)) :=
    ⟨hlen, hmagic, hstored.trans (by rw [htake])⟩
  rw [readSuperblock, dif_pos hcheck]
  exact congrArg some (Superblock.ext hversion hsequence hfields)

end Superblock

/-! ### Writes and crashes -/

/-- The two copies. -/
inductive SuperblockCopy
  | backup
  | primary
  deriving DecidableEq, Repr

/-- The superblock in memory, its copies on disk and the write that is under way. -/
structure SuperblockSystem where
  memory : Superblock
  primary : List UInt8
  backup : List UInt8
  /-- The copy that is being written, and the superblock it is written with. -/
  writing : Option (SuperblockCopy × Superblock)
  running : Bool
  /-- The superblock of the last write that returned success. -/
  success : Superblock
  /-- The superblocks of the writes that were started after it. -/
  started : List Superblock

/-- What can happen. -/
inductive SuperblockEvent
  /-- The engine changes fields of the superblock in memory. -/
  | change (version : UInt32) (fields : List UInt8)
      (length_fields : fields.length = sizeofSuperblock - 20)
  /-- `write_superblock` is called. -/
  | startWrite
  /-- The copy that is being written is on disk. -/
  | copyWritten
  /-- The write of the copy fails and leaves these contents. -/
  | copyFailed (contents : List UInt8)
  /-- A crash, which leaves these contents in the copy that is being written. -/
  | crash (contents : List UInt8)
  /-- `load_superblock` of a later `open`. -/
  | reopen

namespace SuperblockSystem

/-- After a `create` that was successful. -/
def created (sb : Superblock) : SuperblockSystem :=
  ⟨sb, sb.image, sb.image, none, true, sb, []⟩

/-- The contents of a copy. -/
def contents (s : SuperblockSystem) : SuperblockCopy → List UInt8
  | .backup => s.backup
  | .primary => s.primary

/-- The contents of a copy are replaced. -/
def setContents (s : SuperblockSystem) (c : List UInt8) : SuperblockCopy → SuperblockSystem
  | .backup => { s with backup := c }
  | .primary => { s with primary := c }

/-- What an interrupted write can leave in a copy. -/
def canRemain (s : SuperblockSystem) (copy : SuperblockCopy) (sb : Superblock)
    (c : List UInt8) : Bool :=
  c == sb.image || c == s.contents copy || (readSuperblock c).isNone

/-- The step of an event. -/
def step (s : SuperblockSystem) : SuperblockEvent → Option SuperblockSystem
  | .change version fields length_fields =>
      if s.running then
        some { s with memory := ⟨version, s.memory.sequence, fields, length_fields⟩ }
      else none
  | .startWrite =>
      if s.running && s.writing.isNone then
        let sb := { s.memory with sequence := s.memory.sequence + 1 }
        some { s with
          memory := sb, writing := some (.backup, sb), started := s.started ++ [sb] }
      else none
  | .copyWritten =>
      match s.writing with
      | some (.backup, sb) =>
          some { s with backup := sb.image, writing := some (.primary, sb) }
      | some (.primary, sb) =>
          some { s with primary := sb.image, writing := none, success := sb, started := [] }
      | none => none
  | .copyFailed c =>
      match s.writing with
      | some (copy, sb) =>
          if s.canRemain copy sb c then some { s.setContents c copy with writing := none }
          else none
      | none => none
  | .crash c =>
      if s.running then
        match s.writing with
        | some (copy, sb) =>
            if s.canRemain copy sb c then
              some { s.setContents c copy with writing := none, running := false }
            else none
        | none => some { s with running := false }
      else none
  | .reopen =>
      if s.running then none
      else
        match loadSuperblock (some s.primary) (some s.backup) with
        | some sb => some { s with memory := sb, running := true }
        | none => some s

/-- The superblock of the last write that returned success, or of a later one. -/
def Recent (s : SuperblockSystem) (sb : Superblock) : Prop := sb = s.success ∨ sb ∈ s.started

end SuperblockSystem

/-- The copies of the superblock as a machine. -/
def superblockMachine : Machine SuperblockSystem SuperblockEvent where
  step := SuperblockSystem.step

/-- **When an interruption is harmless**: the backup is left damaged only while the primary
copy is intact. -/
def KeepsACopy (s : SuperblockSystem) : SuperblockEvent → Prop
  | .copyFailed c => ∀ sb, s.writing = some (.backup, sb) →
      (readSuperblock c).isSome ∨ (readSuperblock s.primary).isSome
  | .crash c => ∀ sb, s.writing = some (.backup, sb) →
      (readSuperblock c).isSome ∨ (readSuperblock s.primary).isSome
  | _ => True

/-- The invariant: what a copy holds is recent, and one copy is intact. -/
structure SuperblockInv (s : SuperblockSystem) : Prop where
  primary : ∀ sb, readSuperblock s.primary = some sb → s.Recent sb
  backup : ∀ sb, readSuperblock s.backup = some sb → s.Recent sb
  intact : (readSuperblock s.primary).isSome ∨ (readSuperblock s.backup).isSome
  /-- The backup is complete before the primary copy is written. -/
  ordered : ∀ sb, s.writing = some (.primary, sb) → readSuperblock s.backup = some sb
  writing : ∀ copy sb, s.writing = some (copy, sb) → sb ∈ s.started

namespace SuperblockInv

variable {s : SuperblockSystem}

theorem created (sb : Superblock) : SuperblockInv (.created sb) where
  primary := fun sb' h => Or.inl (Option.some.inj (h.symm.trans sb.readSuperblock_image))
  backup := fun sb' h => Or.inl (Option.some.inj (h.symm.trans sb.readSuperblock_image))
  intact := Or.inl (by
    rw [show (SuperblockSystem.created sb).primary = sb.image from rfl,
      sb.readSuperblock_image]
    rfl)
  ordered := by simp [SuperblockSystem.created]
  writing := by simp [SuperblockSystem.created]

/-- What an interrupted write leaves is recent, if it passes the check. -/
theorem recent_of_canRemain (h : SuperblockInv s) {copy : SuperblockCopy} {sb : Superblock}
    (hw : s.writing = some (copy, sb)) {c : List UInt8} (hc : s.canRemain copy sb c = true)
    {sb' : Superblock} (hsb' : readSuperblock c = some sb') : s.Recent sb' := by
  rw [SuperblockSystem.canRemain, Bool.or_eq_true, Bool.or_eq_true] at hc
  rcases hc with (hc | hc) | hc
  · rw [eq_of_beq hc, sb.readSuperblock_image] at hsb'
    exact Or.inr (Option.some.inj hsb' ▸ h.writing copy sb hw)
  · rw [eq_of_beq hc] at hsb'
    cases copy with
    | backup => exact h.backup sb' hsb'
    | primary => exact h.primary sb' hsb'
  · rw [hsb'] at hc
    cases hc

/-- An interrupted write that leaves a copy intact keeps the invariant. -/
theorem interrupt (h : SuperblockInv s) {copy : SuperblockCopy} {sb : Superblock}
    (hw : s.writing = some (copy, sb)) {c : List UInt8} (hc : s.canRemain copy sb c = true)
    (hkeep : copy = .backup → (readSuperblock c).isSome ∨ (readSuperblock s.primary).isSome)
    (running : Bool) :
    SuperblockInv { s.setContents c copy with writing := none, running := running } := by
  cases copy with
  | backup =>
      exact {
        primary := h.primary
        backup := fun sb' hsb' => h.recent_of_canRemain hw hc hsb'
        intact := (hkeep rfl).symm
        ordered := by simp
        writing := by simp }
  | primary =>
      exact {
        primary := fun sb' hsb' => h.recent_of_canRemain hw hc hsb'
        backup := h.backup
        intact := Or.inr (by
          change (readSuperblock s.backup).isSome
          rw [h.ordered sb hw]
          rfl)
        ordered := by simp
        writing := by simp }

/-- A superblock can be loaded, and it is recent. -/
theorem load (h : SuperblockInv s) :
    ∃ sb, loadSuperblock (some s.primary) (some s.backup) = some sb ∧ s.Recent sb := by
  rw [loadSuperblock, Option.bind_some, Option.bind_some]
  cases hp : readSuperblock s.primary with
  | some sb => exact ⟨sb, rfl, h.primary sb hp⟩
  | none =>
      have hb := h.intact.resolve_left (by rw [hp]; exact Bool.false_ne_true)
      obtain ⟨sb, hsb⟩ := Option.isSome_iff_exists.mp hb
      exact ⟨sb, hsb, h.backup sb hsb⟩

/-- Every harmless event keeps the invariant. -/
theorem step {s' : SuperblockSystem} {ev : SuperblockEvent} (h : SuperblockInv s)
    (hsafe : KeepsACopy s ev) (hs : superblockMachine.step s ev = some s') :
    SuperblockInv s' := by
  simp only [superblockMachine, SuperblockSystem.step] at hs
  cases ev with
  | change version fields length_fields =>
      simp only at hs
      split_ifs at hs
      obtain rfl := Option.some.inj hs
      exact ⟨h.primary, h.backup, h.intact, h.ordered, h.writing⟩
  | startWrite =>
      simp only at hs
      split_ifs at hs
      obtain rfl := Option.some.inj hs
      have hrecent : ∀ sb, s.Recent sb → sb = s.success ∨
          sb ∈ s.started ++ [{ s.memory with sequence := s.memory.sequence + 1 }] :=
        fun sb hr => hr.imp_right (List.mem_append_left _)
      exact {
        primary := fun sb hsb => hrecent sb (h.primary sb hsb)
        backup := fun sb hsb => hrecent sb (h.backup sb hsb)
        intact := h.intact
        ordered := by simp
        writing := by
          intro copy sb hw
          obtain ⟨rfl, rfl⟩ := Prod.mk.inj (Option.some.inj hw)
          exact List.mem_append_right _ (List.mem_singleton_self _) }
  | copyWritten =>
      simp only at hs
      split at hs
      · next sb hw =>
          obtain rfl := Option.some.inj hs
          have hmem := h.writing _ sb hw
          exact {
            primary := h.primary
            backup := fun sb' hsb' => Or.inr
              (Option.some.inj (hsb'.symm.trans sb.readSuperblock_image) ▸ hmem)
            intact := Or.inr (by
              change (readSuperblock sb.image).isSome
              rw [sb.readSuperblock_image]
              rfl)
            ordered := by
              intro sb' hw'
              obtain ⟨-, rfl⟩ := Prod.mk.inj (Option.some.inj hw')
              exact sb.readSuperblock_image
            writing := by
              intro copy sb' hw'
              obtain ⟨-, rfl⟩ := Prod.mk.inj (Option.some.inj hw')
              exact hmem }
      · next sb hw =>
          obtain rfl := Option.some.inj hs
          have hb := h.ordered sb hw
          exact {
            primary := fun sb' hsb' => Or.inl
              (Option.some.inj (hsb'.symm.trans sb.readSuperblock_image))
            backup := fun sb' hsb' => Or.inl (Option.some.inj (hsb'.symm.trans hb))
            intact := Or.inr (by
              change (readSuperblock s.backup).isSome
              rw [hb]
              rfl)
            ordered := by simp
            writing := by simp }
      · cases hs
  | copyFailed c =>
      simp only at hs
      split at hs
      · next copy sb hw =>
          split_ifs at hs with hc
          obtain rfl := Option.some.inj hs
          exact h.interrupt hw hc (fun hcopy => hsafe sb (hcopy ▸ hw)) _
      · cases hs
  | crash c =>
      simp only at hs
      split_ifs at hs
      split at hs
      · next copy sb hw =>
          split_ifs at hs with hc
          obtain rfl := Option.some.inj hs
          exact h.interrupt hw hc (fun hcopy => hsafe sb (hcopy ▸ hw)) false
      · obtain rfl := Option.some.inj hs
        exact ⟨h.primary, h.backup, h.intact, h.ordered, h.writing⟩
  | reopen =>
      simp only at hs
      split_ifs at hs
      split at hs
      · obtain rfl := Option.some.inj hs
        exact ⟨h.primary, h.backup, h.intact, h.ordered, h.writing⟩
      · obtain rfl := Option.some.inj hs
        exact h

end SuperblockInv

/-- **After every crash a recent superblock is loaded**, in runs in which the backup is never
left damaged while the primary copy is. -/
theorem load_after_crash {sb : Superblock} {events : List SuperblockEvent}
    {s : SuperblockSystem} (hmeets : superblockMachine.Meets KeepsACopy (.created sb) events)
    (hrun : superblockMachine.run (.created sb) events = some s) :
    ∃ sb', loadSuperblock (some s.primary) (some s.backup) = some sb' ∧ s.Recent sb' :=
  (superblockMachine.run_invariant SuperblockInv (fun _ _ _ h hc hs => h.step hc hs)
    (SuperblockInv.created sb) hmeets hrun).load

/-! ### Two crashes -/

/-- A superblock without files. -/
def blankSuperblock : Superblock :=
  ⟨1, 1, List.replicate (sizeofSuperblock - 20) 0, List.length_replicate⟩

theorem readSuperblock_nil : readSuperblock [] = none :=
  dif_neg fun h => absurd h.1 (by rw [sizeofSuperblock]; decide)

/-- Nothing but garbage can remain. -/
theorem canRemain_nil (s : SuperblockSystem) (copy : SuperblockCopy) (sb : Superblock) :
    s.canRemain copy sb [] = true := by
  rw [SuperblockSystem.canRemain, readSuperblock_nil, Option.isNone_none, Bool.or_true]

/-- A crash while the primary copy is written. -/
def crashInPrimary : List SuperblockEvent := [.startWrite, .copyWritten, .crash []]

/-- The superblock with the next sequence. -/
def nextSuperblock (sb : Superblock) : Superblock := { sb with sequence := sb.sequence + 1 }

theorem run_crashInPrimary (sb : Superblock) :
    superblockMachine.run (.created sb) crashInPrimary =
      some ⟨nextSuperblock sb, [], (nextSuperblock sb).image, none, false, sb,
        [nextSuperblock sb]⟩ := by
  simp only [crashInPrimary, Machine.run, superblockMachine, SuperblockSystem.step,
    SuperblockSystem.created, canRemain_nil, Option.bind_some, Option.isNone_none,
    Bool.and_self, if_true]
  rfl

/-- One crash is survived. -/
theorem load_after_crash_in_primary :
    ∃ s, superblockMachine.run (.created blankSuperblock) crashInPrimary = some s ∧
      s.running = false ∧
      ∃ sb, loadSuperblock (some s.primary) (some s.backup) = some sb ∧ s.Recent sb := by
  have hrun := run_crashInPrimary blankSuperblock
  refine ⟨_, hrun, rfl, load_after_crash ?_ hrun⟩
  refine ⟨trivial, fun s1 h1 => ⟨trivial, fun s2 h2 => ⟨fun sb hw => ?_, fun _ _ => trivial⟩⟩⟩
  obtain rfl := Option.some.inj h1
  obtain rfl := Option.some.inj h2
  cases hw

/-- With the primary copy damaged, a crash while the backup is written. -/
theorem run_crashInBackup {sb : Superblock} {img : List UInt8}
    (h : readSuperblock img = some sb) (memory success : Superblock)
    (started : List Superblock) :
    superblockMachine.run ⟨memory, [], img, none, false, success, started⟩
        [.reopen, .startWrite, .crash []] =
      some ⟨nextSuperblock sb, [], [], none, false, success, started ++ [nextSuperblock sb]⟩ := by
  have hload : loadSuperblock (some []) (some img) = some sb := by
    rw [loadSuperblock, Option.bind_some, readSuperblock_nil, Option.bind_some, h]
  simp only [Machine.run, superblockMachine, SuperblockSystem.step, hload, canRemain_nil,
    if_true]
  rfl

/-- **A second crash loses the superblock**: after a crash while the primary copy is written
and an `open`, a crash while the backup is written leaves nothing that can be loaded. -/
theorem second_crash_loses_superblock :
    ∃ s, superblockMachine.run (.created blankSuperblock)
        (crashInPrimary ++ [.reopen, .startWrite, .crash []]) = some s ∧
      s.running = false ∧ loadSuperblock (some s.primary) (some s.backup) = none := by
  have hnil : loadSuperblock (some []) (some []) = none := by
    rw [loadSuperblock, Option.bind_some, readSuperblock_nil]
  have hrun := run_crashInBackup (nextSuperblock blankSuperblock).readSuperblock_image
    (nextSuperblock blankSuperblock) blankSuperblock [nextSuperblock blankSuperblock]
  rw [superblockMachine.run_append, run_crashInPrimary, Option.bind_some]
  exact ⟨_, hrun, rfl, hnil⟩

end SpdkKv
