import VlbiStreamer.FuseIndex.Operations

/-!
# Looking recordings up

Names are only added: `Adding` says of a step that it adds names of a given set
and that no recording disappears while it is looked at.  As long as the set has
fewer names than the table has slots, the table stays sound, and every name that
is added is found again.

Two things go wrong.  `vbs_hashfunction(key, 1)` answers -1 only where the first
slot it looks at is free; behind a slot that is in use it answers the free slot
at which it stops (`looksUp_iff`).  And `rebuild_file_index` takes the answer 0
for an error (`stored_indexEntry_iff`).  The result is about the runs that do
neither.
-/

namespace VlbiStreamer.FuseIndex

open Library Library.LinearProbing

variable {n : ℕ} [NeZero n]

namespace Table

/-- `vbs_hashfunction(key, 1)` is the slot of the key, or -1 if it has none. -/
def LooksUp (t : Table n) (key : Name) : Prop :=
  (∀ i, t.slots i = some key → t.vbsHashfunction key true = .slot i) ∧
    (¬ t.Stored key → t.vbsHashfunction key true = .minusOne)

/-- `vbs_hashfunction(key, 0)` is the slot of the key, or a free one. -/
def Places (t : Table n) (key : Name) : Prop :=
  (∀ i, t.slots i = some key → t.vbsHashfunction key false = .slot i) ∧
    (¬ t.Stored key → ∃ i, (t i).isFree = true ∧ t.vbsHashfunction key false = .slot i)

/-- No two slots in use have the same name. -/
def Distinct (t : Table n) : Prop :=
  ∀ i j, (t i).isFree = false → (t j).isFree = false → (t i).filename = (t j).filename → i = j

/-- The free slot at which the probe for the name stops is slot 0. -/
def ZeroNext (t : Table n) (name : Name) : Prop :=
  t.slots 0 = none ∧ StopsAt t.slots name (home name) 0

variable {t : Table n} {key : Name}

namespace Sound

theorem distinct (h : t.Sound) : t.Distinct := by
  intro i j hi hj heq
  obtain ⟨name, hname⟩ := Option.ne_none_iff_exists'.mp (h.named i hi)
  exact h.probed.distinct i j name (slots_eq_some_iff.mpr ⟨hi, hname⟩)
    (slots_eq_some_iff.mpr ⟨hj, heq ▸ hname⟩)

/-- The probe for a name stops where there is a free slot. -/
theorem exists_stopsAt (hfree : ∃ i, t.slots i = none) (key : Name) :
    ∃ i, StopsAt t.slots key (home key) i := by
  obtain ⟨i, hi⟩ := hfree
  exact StopsAt.exists_of_stop (.inl hi)

/-- A name is looked up rightly exactly if it is visible. -/
theorem looksUp_iff (h : t.Sound) (hfree : ∃ i, t.slots i = none) (hkey : key ≠ []) :
    t.LooksUp key ↔ t.Visible key := by
  constructor
  · rintro ⟨-, habsent⟩
    by_contra hhidden
    obtain ⟨hnot, hhome⟩ := not_or.mp hhidden
    obtain ⟨i, hi⟩ := exists_stopsAt hfree key
    have hslot := h.vbsHashfunction_hidden hkey hi hhome true
    rw [habsent hnot] at hslot
    cases hslot
  · intro hvisible
    refine ⟨fun i hi => h.vbsHashfunction_stored hkey hi true, fun hnot => ?_⟩
    rw [h.vbsHashfunction_home hkey (hvisible.resolve_left hnot), if_pos rfl]

/-- A name has a place. -/
theorem places (h : t.Sound) (hfree : ∃ i, t.slots i = none) (hkey : key ≠ []) : t.Places key := by
  refine ⟨fun i hi => h.vbsHashfunction_stored hkey hi false, fun hnot => ?_⟩
  obtain ⟨i, hi⟩ := exists_stopsAt hfree key
  refine ⟨i, h.free (hi.stops.resolve_right fun hstored => hnot ⟨i, hstored⟩), ?_⟩
  rw [vbsHashfunction_stopsAt h.named hkey hi, if_neg (by simp)]

/-- An entry has a slot afterwards exactly if it was not to go to slot 0. -/
theorem stored_indexEntry_iff (h : t.Sound) (hfree : ∃ i, t.slots i = none) {e : Entry}
    (hdotty : e.dotty = false) (hstays : ¬ e.disk.Gone) :
    (∃ t', t.indexEntry e = some t' ∧ t'.Stored e.name) ↔ ¬ t.ZeroNext e.name := by
  obtain ⟨i, hi⟩ := exists_stopsAt hfree e.name
  have hstep : t.indexEntry e = if 0 < i.val ∧ (t i).isFree then
      some ((t.addFileToIndex e.name i).touch (FileIndex.createSingleFileIndex e.disk) i)
      else some t := by
    rw [indexEntry, hdotty, if_neg (by simp), vbsHashfunction_stopsAt h.named e.nonempty hi,
      if_neg (by simp)]
  rw [hstep]
  by_cases hput : 0 < i.val ∧ (t i).isFree
  · have hnone : t.slots i = none := h.named.slots_eq_none_iff.mpr hput.2
    obtain ⟨-, hslots⟩ := h.added_cases hi hnone (d := e.disk)
      fun _ => FileIndex.survives_createSingleFileIndex e.disk
    have hadded := hslots.resolve_right fun hgone => hstays hgone.1
    refine iff_of_true ⟨_, if_pos hput, i, ?_⟩ fun hzero => ?_
    · rw [hadded, Function.update_self]
    · rw [← hzero.2.unique hi] at hput
      simp at hput
  · rw [if_neg hput]
    constructor
    · rintro ⟨t', ht', j, hj⟩ ⟨hzero, hstops⟩
      obtain rfl := Option.some.inj ht'
      exact h.probed.absent hstops hzero j hj
    · intro hzero
      refine ⟨t, rfl, i, hi.stops.resolve_left fun hnone => ?_⟩
      rcases Nat.eq_zero_or_pos i.val with hval | hpos
      · obtain rfl : i = 0 := Fin.ext hval
        exact hzero ⟨hnone, hi⟩
      · exact hput ⟨hpos, h.free hnone⟩

/-- A visible name that is on a drive has a slot after `vbs_getattr`. -/
theorem stored_vbsGetattr {d : Disk} (h : t.Sound) (hkey : key ≠ []) (hvisible : t.Visible key)
    (hstays : ¬ d.Gone) : ∃ t', t.vbsGetattr key true d = some t' ∧ t'.Stored key := by
  unfold vbsGetattr
  rw [if_neg hkey]
  rcases hvisible with ⟨i, hi⟩ | hfree
  · rw [h.vbsHashfunction_stored hkey hi]
    obtain ⟨-, hslots⟩ := h.work_cases hi (fun _ => FileIndex.survives_getattr d)
      fun hgone => absurd hgone hstays
    have hsame := hslots.resolve_right fun hgone => hstays hgone.1
    exact ⟨_, rfl, i, by rw [hsame, hi]⟩
  · simp only [if_true, h.vbsHashfunction_home hkey hfree, Bool.false_eq_true, if_false]
    obtain ⟨-, hslots⟩ := h.added_cases (StopsAt.of_free hfree) hfree
      fun _ => FileIndex.survives_getattr d
    have hadded := hslots.resolve_right fun hgone => hstays hgone.1
    exact ⟨_, rfl, home key, by rw [hadded, Function.update_self]⟩

end Sound

end Table

/-! ## Runs -/

/-- No recording disappears while the step looks at it. -/
def Action.Stays : Action → Prop
  | .entry e => ¬ e.disk.Gone
  | .getattr _ _ d | .vbsOpen _ d => ¬ d.Gone
  | .vbsRead _ => True

/-- The step adds only names of the set, and no recording disappears. -/
structure Adding (names : Finset Name) (a : Action) : Prop where
  adds : ∀ name, a.Adds name → name ∈ names
  stays : a.Stays

/-- The names the step looks up are visible, and an entry is not to go to slot 0. -/
structure Careful (t : Table n) (a : Action) : Prop where
  looks : ∀ name, a.Looks name → t.Visible name
  enters : ∀ e, a = .entry e → e.dotty = false → ¬ t.ZeroNext e.name

variable {t : Table n} {names : Finset Name} {a : Action}

theorem Adding.not_gone (h : Adding names a) (name : Name) : ¬ a.Gone name := by
  have hstays := h.stays
  intro hgone
  cases a with
  | entry e => exact hgone
  | getattr name' found d => exact hstays hgone.1
  | vbsOpen name' d => exact hstays hgone.1
  | vbsRead name' => exact hgone

theorem Careful.meets (h : Careful t a) (hadd : Adding names a) : t.Meets a := by
  refine ⟨fun name htouch => h.looks name ?_, fun name _ hgone =>
    absurd hgone (hadd.not_gone name)⟩
  cases a with
  | entry e => exact htouch
  | getattr name' found d => exact htouch
  | vbsOpen name' d => exact htouch
  | vbsRead name' => exact htouch.elim

/-- More names may be added. -/
theorem adding_more {names' : Finset Name}
    (h : (system n).ReachableUnder (fun t a => Adding names a ∧ Careful t a) t)
    (hsub : names ⊆ names') :
    (system n).ReachableUnder (fun t a => Adding names' a ∧ Careful t a) t :=
  h.mono fun _ _ hok => ⟨⟨fun name hadds => hsub (hok.1.adds name hadds), hok.1.stays⟩, hok.2⟩

theorem adding_entry {e : Entry} (hmem : e.name ∈ names) (hstays : ¬ e.disk.Gone) :
    Adding names (.entry e) := by
  refine ⟨?_, hstays⟩
  rintro _ ⟨-, rfl⟩
  exact hmem

theorem careful_entry {e : Entry} {i : Fin n}
    (hstops : StopsAt t.slots e.name (Table.home e.name) i) (hi : i ≠ 0) :
    Careful t (.entry e) := by
  refine ⟨fun _ hlooks => hlooks.elim, ?_⟩
  rintro _ ⟨⟩ - ⟨-, hzero⟩
  exact hi (hstops.unique hzero)

/-- The table is sound and has only names of the set. -/
structure Indexed (names : Finset Name) (t : Table n) : Prop where
  sound : t.Sound
  mem : ∀ i name, t.slots i = some name → name ∈ names

namespace Indexed

theorem exists_free (h : Indexed names t) (hcard : names.card < n) : ∃ i, t.slots i = none :=
  LinearProbing.exists_free h.sound.probed.distinct h.mem hcard

/-- One step: the names that have a slot keep it, and no others come than those added. -/
theorem step (h : Indexed names t) (hadd : Adding names a) (hcare : Careful t a) :
    ∃ t', next t a = some t' ∧ Indexed names t' ∧
      ∀ i name, t.slots i = some name → t'.slots i = some name := by
  obtain ⟨t', hnext, hsound, hchange⟩ := h.sound.next_cases (hcare.meets hadd)
  cases hchange with
  | same heq => exact ⟨t', hnext, ⟨hsound, heq ▸ h.mem⟩, fun i name hi => heq ▸ hi⟩
  | added name i hadds hstops hfree heq =>
      refine ⟨t', hnext, ⟨hsound, fun j key hj => ?_⟩, fun j key hj => ?_⟩
      · rw [heq, Function.update_apply] at hj
        split at hj
        · obtain rfl := Option.some.inj hj
          exact hadd.adds name hadds
        · exact h.mem j key hj
      · have hne : j ≠ i := by
          rintro rfl
          rw [hfree] at hj
          cases hj
        rw [heq, Function.update_of_ne hne]
        exact hj
  | removed name i hgone _ _ => exact absurd hgone (hadd.not_gone name)

/-- A whole call of `rebuild_file_index`: every entry has a slot afterwards. -/
theorem rebuild (h : Indexed names t) (hcard : names.card < n) (es : List Entry)
    (hadd : ∀ e ∈ es, Adding names (.entry e))
    (hok : System.OkFrom Careful next t (es.map Action.entry)) :
    ∃ t', System.runFrom next t (es.map Action.entry) = some t' ∧
      (∀ i name, t.slots i = some name → t'.slots i = some name) ∧
      ∀ e ∈ es, e.dotty = false → t'.Stored e.name := by
  induction es generalizing t with
  | nil => exact ⟨t, rfl, fun _ _ => id, by simp⟩
  | cons e es ih =>
      obtain ⟨hcare, hrest⟩ := hok
      have hadd' := hadd e List.mem_cons_self
      obtain ⟨t₁, hnext, hind, hkeep⟩ := h.step hadd' hcare
      obtain ⟨t', hrun, hkeep', hstored⟩ :=
        ih hind (fun e he => hadd e (List.mem_cons_of_mem _ he)) (hrest t₁ hnext)
      refine ⟨t', ?_, fun i name hi => hkeep' i name (hkeep i name hi), fun e' he' hdotty => ?_⟩
      · show (next t (.entry e)).bind _ = _
        rw [hnext]
        exact hrun
      · rcases List.mem_cons.mp he' with rfl | hmem
        · obtain ⟨t₂, hindex, i, hi⟩ := (h.sound.stored_indexEntry_iff (h.exists_free hcard)
            hdotty hadd'.stays).mpr (hcare.enters e' rfl hdotty)
          obtain rfl := Option.some.inj (hnext.symm.trans hindex)
          exact ⟨i, hkeep' i _ hi⟩
        · exact hstored e' hmem hdotty

end Indexed

theorem indexed_of_reachable
    (h : (system n).ReachableUnder (fun t a => Adding names a ∧ Careful t a) t) :
    Indexed names t := by
  apply h.invariant
  · rintro _ rfl
    exact ⟨Table.sound_empty, fun i name hi => by simp at hi⟩
  · rintro t a t' hind ⟨hadd, hcare⟩ hstep
    obtain ⟨t₁, hnext, hind', -⟩ := hind.step hadd hcare
    obtain rfl := Option.some.inj (hnext.symm.trans hstep)
    exact hind'

/-- The lookup of recordings works: no two slots have the same name, a key is looked up
rightly exactly if it is visible and always has a place, every probe ends, and a name on a
drive has a slot after `vbs_getattr` and after `rebuild_file_index`. -/
structure Searchable (names : Finset Name) (t : Table n) : Prop where
  distinct : t.Distinct
  looksUp : ∀ key, key ≠ [] → (t.LooksUp key ↔ t.Visible key)
  places : ∀ key, key ≠ [] → t.Places key
  ends : ∀ key getNotSet, t.vbsHashfunction key getNotSet ≠ .endless
  added : ∀ key d, key ≠ [] → t.Visible key → ¬ d.Gone →
    ∃ t', t.vbsGetattr key true d = some t' ∧ t'.Stored key
  rebuilt : ∀ drives, (∀ e ∈ visited drives, Adding names (.entry e)) →
    System.OkFrom Careful next t ((visited drives).map Action.entry) →
    ∃ r, t.rebuildFileIndex drives = some r ∧
      ∀ e ∈ visited drives, e.dotty = false → r.1.Stored e.name

/-- **Recordings are found** in every run that adds fewer names than there are slots and
whose every step is `Careful`. -/
theorem searchable_of_reachable (hcard : names.card < n)
    (h : (system n).ReachableUnder (fun t a => Adding names a ∧ Careful t a) t) :
    Searchable names t := by
  have hind := indexed_of_reachable h
  have hfree := hind.exists_free hcard
  refine ⟨hind.sound.distinct, fun key hkey => hind.sound.looksUp_iff hfree hkey,
    fun key hkey => hind.sound.places hfree hkey, t.vbsHashfunction_ne_endless,
    fun key d hkey hvisible hstays => hind.sound.stored_vbsGetattr hkey hvisible hstays,
    fun drives hadd hok => ?_⟩
  obtain ⟨t', hrun, -, hstored⟩ := hind.rebuild hcard (visited drives) hadd hok
  obtain ⟨r, hr, rfl⟩ := Option.map_eq_some_iff.mp ((rebuildFileIndex_eq t drives).trans hrun)
  exact ⟨r, hr, hstored⟩

/-- A recording on one drive, with its configuration file. -/
def present : Disk where
  nDatadirs := 1
  regcomp := true
  opendir _ := true
  ownCfg _ := .read
  files _ := ⟨true, true⟩
  cfgFile := true
  inSchedule := false
  anyCfg := true
  finishedCfg := .read
  subfolder _ := true
  subfiles _ := ⟨true, true⟩

theorem present_stays : ¬ present.Gone := fun h => by simpa [present] using h 0 (by decide)

/-- The recording `ab`. -/
def ab : Entry := ⟨[97, 98], by decide, present⟩

instance neZero1024 : NeZero 1024 := ⟨by decide⟩

/-- Its name goes to slot 195. -/
def indexedAb : Table 1024 :=
  ((Table.empty 1024).addFileToIndex ab.name 195).touch
    (FileIndex.createSingleFileIndex present) 195

theorem next_ab : next (Table.empty 1024) (.entry ab) = some indexedAb := rfl

/-- The run that indexes `ab`. -/
theorem indexedAb_reachable : (system 1024).ReachableUnder
    (fun t a => Adding {ab.name} a ∧ Careful t a) indexedAb := by
  refine .step (.init rfl) ⟨adding_entry (by decide) present_stays, ?_⟩ next_ab
  exact careful_entry (StopsAt.of_free (by simp)) (by decide)

/-- The recording `ba`. -/
def ba : Entry := ⟨[98, 97], by decide, present⟩

/-- Its name goes to slot 196, behind `ab`. -/
def indexedBoth : Table 1024 :=
  (indexedAb.addFileToIndex ba.name 196).touch (FileIndex.createSingleFileIndex present) 196

theorem next_ba : next indexedAb (.entry ba) = some indexedBoth := rfl

theorem stopsAt_ba : StopsAt indexedAb.slots ba.name (Table.home ba.name) 196 := by
  refine ⟨.inl (by decide), fun j hj => ?_⟩
  have hone : steps (Table.home ba.name) (196 : Fin 1024) = 1 := by decide
  -- the walk passes the slot of `ab` only
  obtain rfl : j = Table.home ba.name := eq_of_steps_eq_zero (by omega)
  decide

/-- The run that indexes `ab` and `ba`. -/
theorem indexedBoth_reachable : (system 1024).ReachableUnder
    (fun t a => Adding {ab.name, ba.name} a ∧ Careful t a) indexedBoth := by
  refine .step (adding_more indexedAb_reachable (by decide))
    ⟨adding_entry (by decide) present_stays, ?_⟩ next_ba
  exact careful_entry stopsAt_ba (by decide)

/-- The directory has two recordings with one home slot, and both are found. -/
theorem searchable_of_reachable_both : Searchable {ab.name, ba.name} indexedBoth ∧
    indexedBoth.LooksUp ab.name ∧ indexedBoth.LooksUp ba.name := by
  have hsearch := searchable_of_reachable (by decide) indexedBoth_reachable
  exact ⟨hsearch, (hsearch.looksUp _ (by decide)).mpr (.inl ⟨195, by decide⟩),
    (hsearch.looksUp _ (by decide)).mpr (.inl ⟨196, by decide⟩)⟩

theorem not_stored_ba : ¬ indexedAb.Stored ba.name := by
  rintro ⟨i, hi⟩
  have hmem := (indexed_of_reachable indexedAb_reachable).mem i _ hi
  exact absurd hmem (by decide)

/-- A recording whose name goes to slot 0. -/
def zeros : Entry := ⟨[122, 122, 122, 122, 122, 122, 122, 122, 48], by decide, present⟩

/-- Behind `ab`, the free slot 196 is the answer for `ba`; and an entry that is to go to
slot 0 is not entered. -/
theorem free_slot_found :
    (¬ ∀ (names : Finset Name) (t : Table 1024), names.card < 1024 →
      (system 1024).ReachableUnder (fun _ a => Adding names a) t →
      ∀ key, key ≠ [] → t.LooksUp key) ∧
    ¬ ∀ (names : Finset Name) (t : Table 1024) (e : Entry), names.card < 1024 →
      (system 1024).ReachableUnder (fun _ a => Adding names a) t → Adding names (.entry e) →
      e.dotty = false → ∀ t', next t (.entry e) = some t' → t'.Stored e.name := by
  constructor
  · intro hall
    have hrun := indexedAb_reachable.mono fun _ _ hok => hok.1
    obtain ⟨-, habsent⟩ := hall {ab.name} indexedAb (by decide) hrun ba.name (by decide)
    have hslot : indexedAb.vbsHashfunction ba.name true = .slot 196 := by decide
    rw [habsent not_stored_ba] at hslot
    cases hslot
  · intro hall
    have hnext : next (Table.empty 1024) (.entry zeros) = some (Table.empty 1024) := rfl
    obtain ⟨i, hi⟩ := hall {zeros.name} _ zeros (by decide) (.init rfl)
      (adding_entry (by decide) present_stays) rfl _ hnext
    simp at hi

end VlbiStreamer.FuseIndex
