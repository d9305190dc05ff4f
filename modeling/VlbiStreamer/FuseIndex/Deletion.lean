import VlbiStreamer.FuseIndex.Lookup

/-!
# Deleting a recording

`clear_recording` frees the slot of a recording whose folders are gone.  The
table has no markers for deleted slots, so that the lookup of another name ends
at the slot that became free if the name was found over it.  A deletion is
`Local` exactly if no other name is (`Spares`) and the recording was in its home
slot, behind which its own name is not looked for any more.
-/

namespace VlbiStreamer.FuseIndex

open Library Library.LinearProbing

variable {n : ℕ} [NeZero n]

namespace Table

/-- Clearing slot `i` of recording `r` concerns only `r`. -/
structure Local (t : Table n) (i : Fin n) (r : Name) : Prop where
  /-- The other names are looked up as before. -/
  others : ∀ key, key ≠ r → t.Stored key →
    (t.clearRecording i).vbsHashfunction key true = t.vbsHashfunction key true
  /-- The recording is not found. -/
  removed : (t.clearRecording i).vbsHashfunction r true = .minusOne
  /-- Whatever the drives have, the names keep their slots and every name has only one. -/
  rebuilt : ∀ drives, ∃ after, (t.clearRecording i).rebuildFileIndex drives = some after ∧
    (∀ key, (t.clearRecording i).Stored key → after.1.Stored key) ∧
    ∀ j k key, after.1.slots j = some key → after.1.slots k = some key → j = k

/-- The recording is in its home slot, and no other name is found over it. -/
def Removable (t : Table n) (i : Fin n) (r : Name) : Prop :=
  home r = i ∧ Spares home t.slots i

variable {t : Table n} {i j : Fin n} {key r : Name} {a : Action}

omit [NeZero n] in
theorem Named.clearRecording (h : t.Named) (i : Fin n) : (t.clearRecording i).Named := by
  intro j hj
  rw [Table.clearRecording, Function.update_apply] at hj ⊢
  split at hj
  · simp at hj
  next hne =>
    rw [if_neg hne]
    exact h j hj

omit [NeZero n] in
theorem free_clearRecording (t : Table n) (i : Fin n) : (t.clearRecording i).slots i = none := by
  rw [slots_clearRecording, Function.update_self]

namespace Sound

/-- A call of `rebuild_file_index` on a sound table. -/
theorem rebuild (h : t.Sound) (es : List Entry) :
    ∃ t', System.runFrom next t (es.map Action.entry) = some t' ∧ t'.Sound ∧
      ∀ key, t.Stored key → t'.Stored key := by
  induction es generalizing t with
  | nil => exact ⟨t, rfl, h, fun _ => id⟩
  | cons e es ih =>
      obtain ⟨t₁, hnext, hsound, hchange⟩ := h.indexEntry_cases e
      obtain ⟨t', hrun, hsound', hkeep⟩ := ih hsound
      refine ⟨t', ?_, hsound', fun key hkey => hkeep key ?_⟩
      · show (t.indexEntry e).bind _ = _
        rw [hnext]
        exact hrun
      · obtain ⟨j, hj⟩ := hkey
        cases hchange with
        | same heq => exact ⟨j, by rw [heq, hj]⟩
        | added name i _ _ hfree heq =>
            have hne : j ≠ i := by
              rintro rfl
              rw [hfree] at hj
              cases hj
            exact ⟨j, by rw [heq, Function.update_of_ne hne, hj]⟩
        | removed name i hgone _ _ => exact hgone.elim

/-- The answer for another name after slot `i` was cleared. -/
theorem lookup_clear_iff (h : t.Sound) (hkey : key ≠ []) (hj : t.slots j = some key)
    (hne : j ≠ i) : (t.clearRecording i).vbsHashfunction key true = .slot j ↔
      steps (home key) j ≤ steps (home key) i := by
  rw [← h.probed.stopsAt_erase_iff hj hne, ← slots_clearRecording]
  constructor
  · intro hanswer
    obtain ⟨k, hk⟩ := exists_stopsAt ⟨i, free_clearRecording t i⟩ key
    rw [vbsHashfunction_stopsAt (h.named.clearRecording i) hkey hk] at hanswer
    split at hanswer
    · cases hanswer
    · obtain rfl := Answer.slot.inj hanswer
      exact hk
  · intro hstops
    rw [vbsHashfunction_stopsAt (h.named.clearRecording i) hkey hstops, if_neg]
    rintro ⟨-, hfree⟩
    obtain rfl := hstops.unique (StopsAt.of_free hfree)
    rw [slots_clearRecording, Function.update_of_ne hne, hj] at hfree
    cases hfree

/-- The answer for the name that was cleared itself. -/
theorem lookup_cleared_iff (h : t.Sound) (hr : r ≠ []) (hi : t.slots i = some r) :
    (t.clearRecording i).vbsHashfunction r true = .minusOne ↔ home r = i := by
  obtain ⟨k, hk⟩ := exists_stopsAt ⟨i, free_clearRecording t i⟩ r
  rw [vbsHashfunction_stopsAt (h.named.clearRecording i) hr hk, slots_clearRecording]
  constructor
  · intro hanswer
    by_contra hne
    -- the home slot is still in use, by the name that sent `r` further
    have hpos : steps (home r : Fin n) (home r) < steps (home r) i := by
      rw [steps_self]
      exact Nat.pos_of_ne_zero fun hzero => hne (eq_of_steps_eq_zero hzero).symm
    have hused := h.probed.reached i r hi (home r) hpos
    rw [Function.update_of_ne hne, if_neg fun hand => hused hand.2] at hanswer
    cases hanswer
  · rintro rfl
    rw [Function.update_self, if_pos ⟨rfl, rfl⟩]

/-- **A deletion is local** exactly if the recording is removable. -/
theorem local_iff (h : t.Sound) (hnames : ∀ j name, t.slots j = some name → name ≠ [])
    (hi : t.slots i = some r) : t.Local i r ↔ t.Removable i r := by
  have hother : ∀ j key, t.slots j = some key → j ≠ i → key ≠ r := by
    rintro j _ hj hne rfl
    exact hne (h.probed.distinct j i _ hj hi)
  constructor
  · intro hlocal
    refine ⟨(h.lookup_cleared_iff (hnames i r hi) hi).mp hlocal.removed, fun j key hj hne => ?_⟩
    have hsame := hlocal.others key (hother j key hj hne) ⟨j, hj⟩
    rw [h.vbsHashfunction_stored (hnames j key hj) hj] at hsame
    exact (h.lookup_clear_iff (hnames j key hj) hj hne).mp hsame
  · rintro ⟨hhome, hspares⟩
    refine ⟨fun key hne ⟨j, hj⟩ => ?_, (h.lookup_cleared_iff (hnames i r hi) hi).mpr hhome,
      fun drives => ?_⟩
    · have hji : j ≠ i := by
        rintro rfl
        exact hne (Option.some.inj (hj.symm.trans hi))
      rw [h.vbsHashfunction_stored (hnames j key hj) hj]
      exact (h.lookup_clear_iff (hnames j key hj) hj hji).mpr (hspares j key hj hji)
    · obtain ⟨t', hrun, hsound, hkeep⟩ := (h.clear hspares).rebuild (visited drives)
      obtain ⟨after, hafter, rfl⟩ :=
        Option.map_eq_some_iff.mp ((rebuildFileIndex_eq _ _).trans hrun)
      exact ⟨after, hafter, hkeep, hsound.probed.distinct⟩

end Sound

end Table

/-! ## Runs -/

variable {t : Table n} {i : Fin n} {r : Name}

/-- The table is sound, and no name is empty. -/
theorem sound_of_reachable (h : (system n).ReachableUnder Table.Meets t) :
    t.Sound ∧ ∀ j name, t.slots j = some name → name ≠ [] := by
  apply h.invariant
  · rintro _ rfl
    exact ⟨Table.sound_empty, fun j name hj => by simp at hj⟩
  · rintro t a t' ⟨hsound, hnames⟩ hmeets hstep
    obtain ⟨t₁, hnext, hsound', hchange⟩ := hsound.next_cases hmeets
    obtain rfl := Option.some.inj (hnext.symm.trans hstep)
    refine ⟨hsound', fun j name hj => ?_⟩
    cases hchange with
    | same heq => exact hnames j name (heq ▸ hj)
    | added key i hadds _ _ heq =>
        rw [heq, Function.update_apply] at hj
        split at hj
        · obtain rfl := Option.some.inj hj
          exact hadds.nonempty
        · exact hnames j name hj
    | removed key i _ _ heq =>
        exact hnames j name (Probed.update_none_eq_some (heq ▸ hj)).2

/-- **Deleting a recording is local** in every run whose every step meets the condition,
exactly if the recording is removable. -/
theorem local_of_reachable (h : (system n).ReachableUnder Table.Meets t)
    (hi : t.slots i = some r) : t.Local i r ↔ t.Removable i r := by
  obtain ⟨hsound, hnames⟩ := sound_of_reachable h
  exact hsound.local_iff hnames hi

/-- The recording `bc`. -/
def bc : Entry := ⟨[98, 99], by decide, present⟩

/-- Its name goes to its home slot, 197, behind `ab` and `ba`. -/
def indexedThree : Table 1024 :=
  (indexedBoth.addFileToIndex bc.name 197).touch (FileIndex.createSingleFileIndex present) 197

theorem next_bc : next indexedBoth (.entry bc) = some indexedThree := rfl

theorem indexedThree_reachable : (system 1024).ReachableUnder
    (fun t a => Adding {ab.name, ba.name, bc.name} a ∧ Careful t a) indexedThree := by
  refine .step (adding_more indexedBoth_reachable (by decide))
    ⟨adding_entry (by decide) present_stays, ?_⟩ next_bc
  exact careful_entry (StopsAt.of_free (by decide)) (by decide)

/-- Behind two recordings with one home slot, a third can be deleted, but not the first. -/
theorem local_of_reachable_three :
    indexedThree.Local 197 bc.name ∧ ¬ indexedThree.Local 195 ab.name := by
  have hreach := indexedThree_reachable.mono fun _ _ hok => hok.2.meets hok.1
  have hind := indexed_of_reachable indexedThree_reachable
  have hdistinct := hind.sound.probed.distinct
  constructor
  · refine (local_of_reachable hreach (by decide)).mpr ⟨by decide, fun j key hj hne => ?_⟩
    have hmem := hind.mem j key hj
    simp only [Finset.mem_insert, Finset.mem_singleton] at hmem
    obtain rfl | rfl | rfl := hmem
    · obtain rfl := hdistinct j 195 _ hj (by decide)
      decide
    · obtain rfl := hdistinct j 196 _ hj (by decide)
      decide
    · exact absurd (hdistinct j 197 _ hj (by decide)) hne
  · intro hlocal
    have hspares := ((local_of_reachable hreach (by decide)).mp hlocal).2
    exact absurd (hspares 196 ba.name (by decide) (by decide)) (by decide)

/-- After `ab` is deleted, `ba` is not found. -/
theorem deletion_not_local :
    ¬ ∀ (t : Table 1024) (i : Fin 1024) (r : Name), (system 1024).Reachable t →
      t.slots i = some r → t.Local i r := by
  intro hall
  have hrun : (system 1024).Reachable indexedBoth :=
    (System.Reachable.init rfl).step next_ab |>.step next_ba
  have hlocal := hall indexedBoth 195 ab.name hrun (by decide)
  have hstored : indexedBoth.Stored ba.name := ⟨196, by decide⟩
  have hsame := hlocal.others ba.name (by decide) hstored
  exact absurd hsame (by decide)

end VlbiStreamer.FuseIndex
