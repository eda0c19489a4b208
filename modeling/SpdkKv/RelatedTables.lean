import SpdkKv.IndexReferences

/-!
# Tables That Differ in Places

Two tables with the same keys and sequences in the same slots, whose entries are related. The
index never looks at the place of a record, so calls that both tables get keep them related, and
so do changes of places in one of them that respect the relation.

## Main results

* `MemIndex.Related.find`: lookups lead to the same slots.
* `MemIndex.Related.upsert`, `MemIndex.Related.remove`: **calls keep tables related**.
* `MemIndex.Related.changeFound`: so does a change of places in one of them.
-/

namespace SpdkKv

/-- Two entries differ at most in where their records lie. -/
structure MemIndexEntry.Alike (e e' : MemIndexEntry) : Prop extends e.SameButPlace e' where
  sequence : e.sequence = e'.sequence

theorem MemIndexEntry.Alike.refl (e : MemIndexEntry) : e.Alike e := ⟨⟨rfl, rfl, rfl⟩, rfl⟩

namespace MemIndex

variable {n : ℕ}

/-- The tables differ in places only, and the entries of every used slot are related. -/
structure Related (R : MemIndexEntry → MemIndexEntry → Prop) (m m' : MemIndex n) : Prop where
  psl : m.psl = m'.psl
  alike : ∀ i, (m.entries i).Alike (m'.entries i)
  used : ∀ i, m'.vacant i = false → R (m.entries i) (m'.entries i)

namespace Related

variable {R : MemIndexEntry → MemIndexEntry → Prop} {m m' : MemIndex n} {key : UInt64}

/-- A table is related to itself. -/
theorem refl (hR : ∀ e, R e e) (m : MemIndex n) : Related R m m :=
  ⟨rfl, fun _ => .refl _, fun _ _ => hR _⟩

/-- A weaker relation. -/
theorem mono {R' : MemIndexEntry → MemIndexEntry → Prop} (h : Related R m m')
    (hR : ∀ e e', R e e' → R' e e') : Related R' m m' :=
  ⟨h.psl, h.alike, fun i hi => hR _ _ (h.used i hi)⟩

/-- **Lookups lead to the same slots.** -/
theorem find (h : Related R m m') (key : UInt64) : m.find key = m'.find key :=
  find_congr h.psl fun i => (h.alike i).toSameButPlace

/-- The same slots are free. -/
theorem vacant (h : Related R m m') (i : Fin (2 ^ n)) : m.vacant i = m'.vacant i := by
  rw [MemIndex.vacant, MemIndex.vacant, MemIndexEntry.isEmpty, MemIndexEntry.isEmpty, h.psl,
    (h.alike i).key, (h.alike i).sequence]

/-- Related entries are written to a slot of both tables. -/
theorem setEntry (h : Related R m m') {e e' : MemIndexEntry} (halike : e.Alike e')
    (he : R e e') (i : Fin (2 ^ n)) : Related R (m.setEntry i e) (m'.setEntry i e') := by
  refine ⟨h.psl, fun j => ?_, fun j hj => ?_⟩
  · by_cases hji : j = i
    · subst hji
      simpa only [MemIndex.setEntry, Function.update_self] using halike
    · simpa only [MemIndex.setEntry, Function.update_of_ne hji] using h.alike j
  · by_cases hji : j = i
    · subst hji
      simpa only [MemIndex.setEntry, Function.update_self] using he
    · have hsame : (m'.setEntry i e').vacant j = m'.vacant j := by
        simp [MemIndex.vacant, MemIndex.setEntry, hji]
      simpa only [MemIndex.setEntry, Function.update_of_ne hji] using h.used j (hsame ▸ hj)

/-- The stored length of a slot is set with its entry. -/
theorem place (h : Related R m m') {e e' : MemIndexEntry} (halike : e.Alike e')
    (he : R e e') (i : Fin (2 ^ n)) (p : ℕ) :
    Related R ((m.setEntry i e).setPsl i p) ((m'.setEntry i e').setPsl i p) := by
  have hset := h.setEntry halike he i
  refine ⟨by simp only [MemIndex.setPsl, hset.psl], hset.alike, fun j hj => ?_⟩
  by_cases hji : j = i
  · subst hji
    simpa only [MemIndex.setPsl, MemIndex.setEntry, Function.update_self] using he
  · have hsame : ((m'.setEntry i e').setPsl i p).vacant j = (m'.setEntry i e').vacant j := by
      simp [MemIndex.vacant, MemIndex.setPsl, hji]
    exact hset.used j (hsame ▸ hj)

/-- What two walks of `upsert` have in common. -/
structure InStep (R : MemIndexEntry → MemIndexEntry → Prop) (s s' : UpsertState n) : Prop where
  table : Related R s.table s'.table
  idx : s.idx = s'.idx
  dist : s.dist = s'.dist
  alike : s.entryToInsert.Alike s'.entryToInsert
  carried : R s.entryToInsert s'.entryToInsert

/-- A turn of both walks. -/
theorem InStep.turn {s s' : UpsertState n} (h : InStep R s s') (key : UInt64) :
    Sum.LiftRel (InStep R) (fun r r' => Related R r.1 r'.1 ∧ r.2 = r'.2) (upsertBody key s)
      (upsertBody key s') := by
  obtain ⟨m, idx, dist, e⟩ := s
  obtain ⟨m', idx', dist', e'⟩ := s'
  obtain ⟨htable, rfl, rfl, halike, hcarried⟩ := h
  dsimp only at htable halike hcarried
  have hresident := htable.alike idx
  have hplaced := htable.place halike hcarried idx
  rw [upsertBody, upsertBody, upsertProbe, upsertProbe]
  dsimp only
  rw [htable.vacant, hresident.key, hresident.sequence, halike.sequence, htable.psl]
  by_cases hv : m'.vacant idx = true
  · rw [if_pos hv, if_pos hv]
    have hfirst := hplaced (dist + 1)
    exact .inr ⟨⟨hfirst.psl, hfirst.alike, hfirst.used⟩, rfl⟩
  · rw [if_neg hv, if_neg hv]
    by_cases hk : (m'.entries idx).key = key
    · rw [if_pos hk, if_pos hk]
      split_ifs
      · exact .inr ⟨htable.setEntry halike hcarried idx, rfl⟩
      · exact .inr ⟨htable, rfl⟩
    · rw [if_neg hk, if_neg hk]
      by_cases hs : m'.psl idx < dist + 1
      · -- both residents are carried on
        rw [if_pos hs, if_pos hs]
        dsimp only
        split_ifs
        · exact .inr ⟨hplaced dist, rfl⟩
        · exact .inl ⟨hplaced dist, rfl, rfl, hresident, htable.used idx (Bool.eq_false_iff.mpr hv)⟩
      · rw [if_neg hs, if_neg hs]
        dsimp only
        split_ifs
        · exact .inr ⟨htable, rfl⟩
        · exact .inl ⟨htable, rfl, rfl, halike, hcarried⟩

/-- **`upsert` keeps tables related.** -/
theorem upsert (h : Related R m m') {e : MemIndexEntry} (he : R (tagged key e) (tagged key e)) :
    Related R (m.upsert key e).1 (m'.upsert key e).1 := by
  have hstart : InStep R ⟨m, home n key, 0, tagged key e⟩ ⟨m', home n key, 0, tagged key e⟩ :=
    ⟨h, rfl, rfl, .refl _, he⟩
  exact ((upsertLoop key).run_related (upsertLoop key) (InStep R) _
    (fun _ _ hs => hs.turn key) hstart).1

/-- **`remove` keeps tables related**, if the relation says nothing of tombstones. -/
theorem remove (h : Related R m m') (hdead : ∀ e e', e'.deleted = true → R e e') (key : UInt64) :
    Related R (m.remove key).1 (m'.remove key).1 := by
  rw [MemIndex.remove, MemIndex.remove, h.find key]
  cases m'.find key with
  | none => exact h
  | some i =>
      have halike := h.alike i
      have hdeleted : MemIndexEntry.Alike { m.entries i with deleted := true }
          { m'.entries i with deleted := true } :=
        ⟨⟨halike.key, rfl, halike.tag⟩, halike.sequence⟩
      exact h.setEntry hdeleted (hdead _ _ rfl) i

/-- **A change of places in one table**: the entry that `find` leads to is related after it, and
the others are as they are. -/
theorem changeFound {R' : MemIndexEntry → MemIndexEntry → Prop} (h : Related R m m')
    {test : MemIndexEntry → Bool} {change : MemIndexEntry → MemIndexEntry}
    (hplace : ∀ e, (change e).Alike e)
    (hfound : ∀ i, m'.find key = some i → test (m.entries i) = true →
      R' (change (m.entries i)) (m'.entries i))
    (hother : ∀ i, m'.vacant i = false → (m'.find key = some i → test (m.entries i) = false) →
      R' (m.entries i) (m'.entries i)) : Related R' (m.changeFound key test change) m' := by
  rw [MemIndex.changeFound, h.find key]
  cases hfind : m'.find key with
  | none => exact ⟨h.psl, h.alike, fun i hi => hother i hi fun hi' => by simp [hfind] at hi'⟩
  | some i =>
      dsimp only
      split_ifs with htest
      · refine ⟨h.psl, fun j => ?_, fun j hj => ?_⟩
        · by_cases hji : j = i
          · subst hji
            have hkeep := hplace (m.entries j)
            have halike := h.alike j
            simp only [MemIndex.setEntry, Function.update_self]
            exact ⟨⟨hkeep.key.trans halike.key, hkeep.deleted.trans halike.deleted,
              hkeep.tag.trans halike.tag⟩, hkeep.sequence.trans halike.sequence⟩
          · simpa only [MemIndex.setEntry, Function.update_of_ne hji] using h.alike j
        · by_cases hji : j = i
          · subst hji
            simp only [MemIndex.setEntry, Function.update_self]
            exact hfound j hfind htest
          · simp only [MemIndex.setEntry, Function.update_of_ne hji]
            refine hother j hj fun hj' => absurd ?_ hji
            exact (Option.some.inj (hfind.symm.trans hj')).symm
      · refine ⟨h.psl, h.alike, fun j hj => hother j hj fun hj' => ?_⟩
        obtain rfl := Option.some.inj (hfind.symm.trans hj')
        exact Bool.eq_false_iff.mpr htest

end Related

end MemIndex

end SpdkKv
