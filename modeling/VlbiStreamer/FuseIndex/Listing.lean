import VlbiStreamer.FuseIndex.Deletion

/-!
# Listing the recordings

`vbs_readdir` enters what the drives have into the table (`rebuild_file_index`) and then
passes the name of every slot in use to `filler`, but for the slots that are no recordings.
Nothing is taken out of the table: what was listed stays listed (`readdir_lists`), also when
the drives do not have it any more.

Where names are only added, every name is listed once, and is looked up in the slot it is
listed from.  After a deletion that is not `Local` a recording can be listed twice
(`listed_twice`): the next listing enters it into the slot that became free.
-/

namespace VlbiStreamer.FuseIndex

open Library Library.LinearProbing

variable {n : ℕ}

/-- `fi->status != STATUS_SLOTFREE && !(fi->status & STATUS_NOTVBS)`. -/
def FileIndex.listed (fi : FileIndex) : Bool := !fi.isFree && !fi.status.notVbs

theorem FileIndex.occupied_of_listed {fi : FileIndex} (h : fi.listed = true) :
    fi.isFree = false := by
  unfold FileIndex.listed at h
  simpa using (Bool.and_eq_true_iff.mp h).1

/-- The slot of a new name, before the recording is looked at. -/
def FileIndex.fresh (filename : Name) : FileIndex :=
  ⟨some filename, { slotFree with found := true }⟩

/-- The slot that an entry gets if its name is new. -/
def Entry.slot (e : Entry) : FileIndex := (FileIndex.createSingleFileIndex e.disk (.fresh e.name)).1

/-- The entry has this name. -/
def Entry.enters (e : Entry) (name : Name) : Bool := !e.dotty && e.name == name

/-- `/`. -/
def rootPath : Name := [47]

/-- `.` and `..`, as `vbs_readdir` fills them in. -/
def dotties : List (Option Name) := [some [46], some [46, 46]]

namespace Table

/-- The names that `vbs_readdir` passes to `filler` from the table. -/
def listing (t : Table n) : List (Option Name) :=
  ((List.finRange n).filter fun i => (t i).listed).map fun i => (t i).filename

/-- `vbs_readdir`: the table afterwards, and what was passed to `filler`, or `-ENOENT`.  What
`rebuild_file_index` returns is not looked at. -/
def vbsReaddir [NeZero n] (t : Table n) (path : Name) (drives : List Drive) :
    Option (Table n × Option (List (Option Name))) :=
  if path ≠ rootPath then some (t, none)
  else (t.rebuildFileIndex drives).map fun r => (r.1, some (dotties ++ r.1.listing))

/-- The name is listed. -/
def Lists (t : Table n) (name : Name) : Prop :=
  ∃ i, (t i).listed = true ∧ (t i).filename = some name

variable {t t' : Table n} {name key : Name} {i j : Fin n} {e : Entry}

theorem mem_listing_iff : some name ∈ t.listing ↔ t.Lists name := by
  simp [listing, Lists]

theorem Lists.stored (h : t.Lists name) : t.Stored name := by
  obtain ⟨i, hlisted, hname⟩ := h
  exact ⟨i, slots_eq_some_iff.mpr ⟨FileIndex.occupied_of_listed hlisted, hname⟩⟩

/-- No name is missing. -/
theorem Named.exists_listing (h : t.Named) : ∃ listed : List Name, t.listing = listed.map some := by
  refine ⟨((List.finRange n).filter fun i => (t i).listed).map fun i => (t i).filename.getD [],
    ?_⟩
  rw [listing, List.map_map]
  refine List.map_congr_left fun i hi => ?_
  obtain ⟨name, hname⟩ := Option.ne_none_iff_exists'.mp
    (h i (FileIndex.occupied_of_listed (List.mem_filter.mp hi).2))
  rw [Function.comp_apply, hname, Option.getD_some]

/-- No name is listed twice where no two slots have the same. -/
theorem Distinct.nodup_listing (h : t.Distinct) : t.listing.Nodup := by
  refine List.Nodup.map_on ?_ ((List.nodup_finRange n).filter _)
  intro i hi j hj heq
  exact h i j (FileIndex.occupied_of_listed (List.mem_filter.mp hi).2)
    (FileIndex.occupied_of_listed (List.mem_filter.mp hj).2) heq

/-- A name that two slots have is listed twice. -/
theorem two_le_count_listing (hne : i ≠ j) (hi : (t i).listed = true)
    (hj : (t j).listed = true) (hnamei : (t i).filename = some name)
    (hnamej : (t j).filename = some name) : 2 ≤ t.listing.count (some name) := by
  have hmem : ∀ k, (t k).listed = true →
      k ∈ (List.finRange n).filter fun i => (t i).listed := fun k hk =>
    List.mem_filter.mpr ⟨List.mem_finRange k, hk⟩
  have hperm := (List.perm_cons_erase (hmem i hi)).map fun i => (t i).filename
  have hother : some name ∈ (((List.finRange n).filter fun i => (t i).listed).erase i).map
      fun i => (t i).filename :=
    List.mem_map.mpr ⟨j, (List.mem_erase_of_ne hne.symm).mpr (hmem j hj), hnamej⟩
  have hpos := List.count_pos_iff.mpr hother
  rw [listing, hperm.count_eq, List.map_cons, hnamei, List.count_cons_self]
  omega

/-! ## One entry -/

variable [NeZero n]

/-- No name that is compared is missing. -/
theorem Named.probe_ne_nullName (h : t.Named) (fuel : ℕ) (value : Fin n) (goneover : Bool) :
    t.probe key fuel value goneover ≠ .nullName := by
  induction fuel generalizing value goneover with
  | zero => simp [probe]
  | succ fuel ih =>
      by_cases hstop : t.slots value = none ∨ t.slots value = some key
      · rw [probe_stop fuel h hstop]
        simp
      · obtain ⟨hfree, hkey⟩ := not_or.mp hstop
        rw [probe_pass fuel h hfree hkey]
        split_ifs
        · exact ih _ _
        · simp
        · exact ih _ _

theorem Named.vbsHashfunction_ne_nullName (h : t.Named) (getNotSet : Bool) :
    t.vbsHashfunction key getNotSet ≠ .nullName := by
  unfold vbsHashfunction
  split_ifs
  · simp
  · simp
  · simp
  · exact h.probe_ne_nullName _ _ _

/-- An entry is always dealt with. -/
theorem Named.indexEntry (h : t.Named) (e : Entry) :
    ∃ t', t.indexEntry e = some t' ∧ t'.Named := by
  unfold Table.indexEntry
  split
  · exact ⟨t, rfl, h⟩
  split
  next i _ =>
    split
    · refine ⟨_, rfl, fun j hj => ?_⟩
      rw [touch, Function.update_apply] at hj ⊢
      split_ifs at hj ⊢ with hji
      · have hused : (t.addFileToIndex e.name i i).isFree = false := by
          simp [addFileToIndex, FileIndex.isFree, slotFree]
        have hfound : (t.addFileToIndex e.name i i).status.found = true := by
          simp [addFileToIndex]
        have hslot := FileIndex.survives_createSingleFileIndex e.disk hused hfound
        rcases hslot with hsurvives | ⟨-, hcleared⟩
        · rw [hsurvives.filename]
          simp [addFileToIndex]
        · rw [hcleared] at hj
          simp at hj
      · rw [addFileToIndex, Function.update_of_ne hji] at hj ⊢
        exact h j hj
    · exact ⟨t, rfl, h⟩
  · exact ⟨t, rfl, h⟩
  next hanswer => exact absurd hanswer (h.vbsHashfunction_ne_nullName _)
  next hanswer => exact absurd hanswer (t.vbsHashfunction_ne_endless _ _)

/-- So is a listing. -/
theorem Named.runFrom (h : t.Named) (es : List Entry) :
    ∃ t', System.runFrom next t (es.map Action.entry) = some t' ∧ t'.Named := by
  induction es generalizing t with
  | nil => exact ⟨t, rfl, h⟩
  | cons e es ih =>
      obtain ⟨t₁, hnext, hnamed⟩ := h.indexEntry e
      obtain ⟨t', hrun, hnamed'⟩ := ih hnamed
      exact ⟨t', Option.bind_eq_some_iff.mpr ⟨t₁, hnext, hrun⟩, hnamed'⟩

/-- A slot in use is left as it is, whatever the table. -/
theorem indexEntry_of_used (h : t.indexEntry e = some t') (hj : (t j).isFree = false) :
    t' j = t j := by
  unfold indexEntry at h
  split at h
  · rw [← Option.some.inj h]
  split at h
  next i _ =>
    split at h
    next hput =>
      have hne : j ≠ i := by
        rintro rfl
        rw [hj] at hput
        exact Bool.false_ne_true hput.2
      rw [← Option.some.inj h, touch, Function.update_of_ne hne, addFileToIndex,
        Function.update_of_ne hne]
    next => rw [← Option.some.inj h]
  next => rw [← Option.some.inj h]
  next => cases h
  next => cases h

/-- A slot in use is left as it is by `rebuild_file_index`. -/
theorem runFrom_of_used (es : List Entry)
    (h : System.runFrom next t (es.map Action.entry) = some t') (hj : (t j).isFree = false) :
    t' j = t j := by
  induction es generalizing t with
  | nil => rw [← Option.some.inj h]
  | cons e es ih =>
      obtain ⟨t₁, hnext, hrun⟩ := Option.bind_eq_some_iff.mp h
      have hsame := indexEntry_of_used hnext hj
      rw [ih hrun (by rw [hsame]; exact hj), hsame]

/-- A new name. -/
theorem indexEntry_new (h : t.Named) (hdotty : e.dotty = false)
    (hstops : StopsAt t.slots e.name (home e.name) i) (hpos : 0 < i.val)
    (hfree : (t i).isFree = true) : t.indexEntry e = some (Function.update t i e.slot) := by
  have hfresh : (⟨some e.name, { (t i).status with found := true }⟩ : FileIndex) =
      .fresh e.name := by
    have hstatus : (t i).status = slotFree := by simpa [FileIndex.isFree] using hfree
    rw [hstatus]
    rfl
  rw [indexEntry, hdotty, if_neg Bool.false_ne_true, vbsHashfunction_stopsAt h e.nonempty hstops,
    if_neg (by simp)]
  simp only [if_pos (⟨hpos, hfree⟩ : 0 < i.val ∧ (t i).isFree = true)]
  rw [touch, addFileToIndex, Function.update_self, Function.update_idem, hfresh]
  rfl

/-- A name that has a slot, and what is no recording. -/
theorem indexEntry_old (h : t.Sound) (hold : e.dotty = true ∨ t.Stored e.name) :
    t.indexEntry e = some t := by
  cases hdotty : e.dotty with
  | true => rw [indexEntry, if_pos hdotty]
  | false =>
      obtain ⟨i, hi⟩ := hold.resolve_left (by simp [hdotty])
      have hused : (t i).isFree = false := (slots_eq_some_iff.mp hi).1
      rw [indexEntry, hdotty, if_neg Bool.false_ne_true, h.vbsHashfunction_stored e.nonempty hi]
      exact if_neg fun hput => Bool.false_ne_true (hused.symm.trans hput.2)

end Table

/-! ## A whole listing -/

variable [NeZero n] {t t' : Table n} {names : Finset Name} {name : Name} {i j : Fin n}
  {e : Entry}

theorem Entry.enters_iff : e.enters name = true ↔ e.dotty = false ∧ e.name = name := by
  simp [Entry.enters]

/-- The slot of a new recording that is on a drive. -/
theorem Entry.slot_used (hstays : ¬ e.disk.Gone) :
    e.slot.isFree = false ∧ e.slot.filename = some e.name := by
  have hslot : FileIndex.SurvivesOrGone e.disk (.fresh e.name) e.slot :=
    FileIndex.survives_createSingleFileIndex e.disk rfl rfl
  have hsurvives := hslot.resolve_right fun hgone => hstays hgone.1
  exact ⟨hsurvives.occupied, hsurvives.filename⟩

omit [NeZero n] in
/-- A name that has a slot keeps it when an entry has it. -/
theorem Entry.stored_of_enters (hold : e.dotty = true ∨ t.Stored e.name)
    (henters : e.enters name = true) : t.Stored name := by
  obtain ⟨hdotty, rfl⟩ := Entry.enters_iff.mp henters
  exact hold.resolve_left (by simp [hdotty])

omit [NeZero n] in
/-- A new name is put into a slot: it has one. -/
theorem Table.stored_update (hnone : t.slots i = none) (hused : e.slot.isFree = false)
    (hname : e.slot.filename = some e.name) :
    Table.Stored (Function.update t i e.slot) name ↔ t.Stored name ∨ e.name = name := by
  have hslots : Table.slots (Function.update t i e.slot) =
      Function.update t.slots i (some e.name) := by
    rw [Table.slots_update, hused, hname]
    rfl
  constructor
  · rintro ⟨j, hj⟩
    rw [hslots, Function.update_apply] at hj
    split_ifs at hj
    · exact .inr (Option.some.inj hj)
    · exact .inl ⟨j, hj⟩
  · rintro (⟨j, hj⟩ | rfl)
    · have hji : j ≠ i := by
        rintro rfl
        exact Option.some_ne_none _ (hj.symm.trans hnone)
      exact ⟨j, by rw [hslots, Function.update_of_ne hji, hj]⟩
    · exact ⟨i, by rw [hslots, Function.update_self]⟩

omit [NeZero n] in
/-- And it is listed, if the slot is. -/
theorem Table.lists_update (hfree : (t i).isFree = true) (hnew : ¬ t.Stored e.name)
    (hname : e.slot.filename = some e.name) :
    Table.Lists (Function.update t i e.slot) name ↔
      t.Lists name ∨ (¬ t.Stored name ∧ e.name = name ∧ e.slot.listed = true) := by
  constructor
  · rintro ⟨j, hlisted, hj⟩
    by_cases hji : j = i
    · subst hji
      rw [Function.update_self] at hlisted hj
      obtain rfl := Option.some.inj (hname.symm.trans hj)
      exact .inr ⟨hnew, rfl, hlisted⟩
    · rw [Function.update_of_ne hji] at hlisted hj
      exact .inl ⟨j, hlisted, hj⟩
  · rintro (⟨j, hlisted, hj⟩ | ⟨-, rfl, hlisted⟩)
    · have hji : j ≠ i := by
        rintro rfl
        simp [FileIndex.listed, hfree] at hlisted
      refine ⟨j, ?_, ?_⟩
      · rw [Function.update_of_ne hji]
        exact hlisted
      · rw [Function.update_of_ne hji]
        exact hj
    · refine ⟨i, ?_, ?_⟩
      · rw [Function.update_self]
        exact hlisted
      · rw [Function.update_self]
        exact hname

namespace Indexed

/-- One entry of a listing. -/
theorem entry (h : Indexed names t) (hcard : names.card < n) (hadd : Adding names (.entry e))
    (hcare : Careful t (.entry e)) : ∃ t', next t (.entry e) = some t' ∧ Indexed names t' ∧
      (∀ name, t'.Stored name ↔ t.Stored name ∨ e.enters name = true) ∧
      ∀ name, t'.Lists name ↔ t.Lists name ∨
        (¬ t.Stored name ∧ e.enters name = true ∧ e.slot.listed = true) := by
  by_cases hold : e.dotty = true ∨ t.Stored e.name
  · refine ⟨t, Table.indexEntry_old h.sound hold, h, fun name => ?_, fun name => ?_⟩
    · exact ⟨.inl, fun hstored => hstored.elim id (Entry.stored_of_enters hold)⟩
    · exact ⟨.inl, fun hlists => hlists.elim id fun ⟨hnot, henters, _⟩ =>
        absurd (Entry.stored_of_enters hold henters) hnot⟩
  · obtain ⟨hdotty, hnew⟩ := not_or.mp hold
    have hdotty : e.dotty = false := by simpa using hdotty
    obtain ⟨i, hi⟩ := Table.Sound.exists_stopsAt (h.exists_free hcard) e.name
    have hnone : t.slots i = none := hi.stops.resolve_right fun hstored => hnew ⟨i, hstored⟩
    have hfree := h.sound.free hnone
    have hpos : 0 < i.val := Nat.pos_of_ne_zero fun hzero => by
      obtain rfl : i = 0 := Fin.ext hzero
      exact hcare.enters e rfl hdotty ⟨hnone, hi⟩
    have hnext := Table.indexEntry_new h.sound.named hdotty hi hpos hfree
    obtain ⟨hocc, hname⟩ := Entry.slot_used hadd.stays
    obtain ⟨t₁, hnext₁, hind, -⟩ := h.step hadd hcare
    obtain rfl := Option.some.inj (hnext₁.symm.trans hnext)
    refine ⟨_, hnext, hind, fun name => ?_, fun name => ?_⟩
    · rw [Table.stored_update hnone hocc hname, Entry.enters_iff]
      simp only [hdotty, true_and]
    · rw [Table.lists_update hfree hnew hname, Entry.enters_iff]
      simp only [hdotty, true_and]

/-- What a call of `rebuild_file_index` lists: what was listed, and of what is new the
first entry that is met decides. -/
theorem lists_rebuild (h : Indexed names t) (hcard : names.card < n) (es : List Entry)
    (hadd : ∀ e ∈ es, Adding names (.entry e))
    (hok : System.OkFrom Careful next t (es.map Action.entry)) :
    ∃ t', System.runFrom next t (es.map Action.entry) = some t' ∧ Indexed names t' ∧
      ∀ name, t'.Lists name ↔ t.Lists name ∨
        (¬ t.Stored name ∧ ∃ e, es.find? (·.enters name) = some e ∧ e.slot.listed = true) := by
  induction es generalizing t with
  | nil => exact ⟨t, rfl, h, fun name => by simp⟩
  | cons e es ih =>
      obtain ⟨hcare, hrest⟩ := hok
      obtain ⟨t₁, hnext, hind, hstored, hlists⟩ := h.entry hcard (hadd e List.mem_cons_self) hcare
      obtain ⟨t', hrun, hind', hlists'⟩ :=
        ih hind (fun e he => hadd e (List.mem_cons_of_mem _ he)) (hrest t₁ hnext)
      refine ⟨t', ?_, hind', fun name => ?_⟩
      · show (next t (.entry e)).bind _ = _
        rw [hnext]
        exact hrun
      · rw [hlists', hlists, hstored, List.find?_cons]
        cases henters : e.enters name with
        | true => simp
        | false => simp

end Indexed

/-- **What is listed**, in every run that adds fewer names than there are slots and whose
every step is `Careful`: every name once; a name is looked up in the slot it is listed from;
and besides what was listed before, the recordings that are new on the drives. -/
theorem readdir_lists (hcard : names.card < n)
    (h : (system n).ReachableUnder (fun t a => Adding names a ∧ Careful t a) t)
    {drives : List Drive} (hadd : ∀ e ∈ visited drives, Adding names (.entry e))
    (hok : System.OkFrom Careful next t ((visited drives).map Action.entry)) :
    ∃ (t' : Table n) (listed : List Name),
      t.vbsReaddir rootPath drives = some (t', some (dotties ++ listed.map some)) ∧
      listed.Nodup ∧
      (∀ name ∈ listed, ∃ i, t'.vbsHashfunction name true = .slot i ∧
        (t' i).filename = some name ∧ (t' i).listed = true) ∧
      ∀ name, name ∈ listed ↔ t.Lists name ∨ (¬ t.Stored name ∧
        ∃ e, (visited drives).find? (·.enters name) = some e ∧ e.slot.listed = true) := by
  obtain ⟨t', hrun, hind, hlists⟩ :=
    (indexed_of_reachable h).lists_rebuild hcard (visited drives) hadd hok
  obtain ⟨r, hr, rfl⟩ := Option.map_eq_some_iff.mp ((rebuildFileIndex_eq t drives).trans hrun)
  have hsound := hind.sound
  obtain ⟨listed, hlisted⟩ := hsound.named.exists_listing
  have hmem : ∀ name, name ∈ listed ↔ r.1.Lists name := fun name => by
    rw [← Table.mem_listing_iff, hlisted, List.mem_map_of_injective (Option.some_injective _)]
  refine ⟨r.1, listed, ?_, ?_, fun name hname => ?_, fun name => (hmem name).trans (hlists name)⟩
  · rw [Table.vbsReaddir, if_neg (not_not.mpr rfl), hr, ← hlisted]
    rfl
  · have hnodup := hsound.distinct.nodup_listing
    rw [hlisted] at hnodup
    exact hnodup.of_map _
  · obtain ⟨i, hlisti, hi⟩ := (hmem name).mp hname
    have hslot := Table.slots_eq_some_iff.mpr ⟨FileIndex.occupied_of_listed hlisti, hi⟩
    have hne : name ≠ [] := by
      rcases (hlists name).mp ⟨i, hlisti, hi⟩ with hold | ⟨-, e, hfind, -⟩
      · obtain ⟨j, hj⟩ := hold.stored
        exact (sound_of_reachable (h.mono fun _ _ hok => hok.2.meets hok.1)).2 j name hj
      · have henters : e.enters name = true := by simpa using List.find?_some hfind
        exact (Entry.enters_iff.mp henters).2 ▸ e.nonempty
    exact ⟨i, hsound.vbsHashfunction_stored hne hslot true, hi, hlisti⟩

/-- The table has one recording, and there is another one on the drive. -/
theorem readdir_lists_ba : ∃ (t' : Table 1024) (listed : List Name),
    indexedAb.vbsReaddir rootPath [.entries [ba, ab]] =
        some (t', some (dotties ++ listed.map some)) ∧
      listed.Nodup ∧ ab.name ∈ listed ∧ ba.name ∈ listed := by
  have hab : (system 1024).ReachableUnder
      (fun t a => Adding {ab.name, ba.name} a ∧ Careful t a) indexedAb :=
    adding_more indexedAb_reachable (by decide)
  have hadd : ∀ e ∈ visited [.entries [ba, ab]], Adding {ab.name, ba.name} (.entry e) := by
    intro e he
    obtain rfl | rfl : e = ba ∨ e = ab := by simpa [visited] using he
    · exact adding_entry (by decide) present_stays
    · exact adding_entry (by decide) present_stays
  have hok : System.OkFrom Careful next indexedAb
      ((visited [.entries [ba, ab]]).map Action.entry) := by
    refine ⟨careful_entry stopsAt_ba (by decide), fun t ht => ⟨?_, fun _ _ => trivial⟩⟩
    obtain rfl := Option.some.inj (next_ba.symm.trans ht)
    have hslot : indexedBoth.slots 195 = some ab.name := by decide
    have hprobed := (indexed_of_reachable indexedBoth_reachable).sound.probed
    exact careful_entry (hprobed.stopsAt hslot) (by decide)
  obtain ⟨t', listed, hreaddir, hnodup, -, hmem⟩ := readdir_lists (by decide) hab hadd hok
  refine ⟨t', listed, hreaddir, hnodup, (hmem _).mpr (.inl ⟨195, by decide, by decide⟩), ?_⟩
  exact (hmem _).mpr (.inr ⟨not_stored_ba, ba, rfl, by decide⟩)

/-- **A recording is listed twice** after one it was found over was deleted: in every run
whose every step meets the condition, if recording `r` in slot `i` is cleared, and the next
thing the drives list is a recording that was found over slot `i`. -/
theorem listed_twice {r : Name} (h : (system n).ReachableUnder Table.Meets t)
    (hi : t.slots i = some r) (hpos : 0 < i.val) (hj : t.slots j = some e.name)
    (hover : steps (Table.home e.name) i < steps (Table.home e.name) j)
    (hdotty : e.dotty = false) (hstays : ¬ e.disk.Gone) (hlisted : (t j).listed = true)
    (hnew : e.slot.listed = true) (es : List Entry) (rest : List Drive) :
    ∃ (t' : Table n) (filled : List (Option Name)),
      (t.clearRecording i).vbsReaddir rootPath (.entries (e :: es) :: rest) =
        some (t', some filled) ∧ 2 ≤ filled.count (some e.name) := by
  obtain ⟨hsound, -⟩ := sound_of_reachable h
  have hji : j ≠ i := by
    rintro rfl
    exact lt_irrefl _ hover
  -- the walk for the name ends at the slot that became free
  have hstops : StopsAt (t.clearRecording i).slots e.name (Table.home e.name) i := by
    rw [Table.slots_clearRecording]
    refine ⟨.inl (Function.update_self ..), fun k hk => ?_⟩
    have hki : k ≠ i := by
      rintro rfl
      exact lt_irrefl _ hk
    rw [Function.update_of_ne hki]
    exact (hsound.probed.stopsAt hj).passes k (hk.trans hover)
  have hnamed := hsound.named.clearRecording i
  have hfree : (t.clearRecording i i).isFree = true :=
    hnamed.slots_eq_none_iff.mp (Table.free_clearRecording t i)
  have hnext : next (t.clearRecording i) (.entry e) = _ :=
    Table.indexEntry_new hnamed hdotty hstops hpos hfree
  obtain ⟨t₁, hnext₁, hnamed₁⟩ := hnamed.indexEntry e
  obtain rfl := Option.some.inj (hnext₁.symm.trans hnext)
  obtain ⟨t', hrun, -⟩ := hnamed₁.runFrom (es ++ visited rest)
  have hwhole : System.runFrom next (t.clearRecording i)
      ((visited (.entries (e :: es) :: rest)).map Action.entry) = some t' :=
    Option.bind_eq_some_iff.mpr ⟨_, hnext, hrun⟩
  obtain ⟨r', hr', rfl⟩ := Option.map_eq_some_iff.mp ((rebuildFileIndex_eq _ _).trans hwhole)
  -- both slots are left as they are by what follows
  have hsloti : Function.update (t.clearRecording i) i e.slot i = e.slot := Function.update_self ..
  have hslotj : Function.update (t.clearRecording i) i e.slot j = t j := by
    rw [Function.update_of_ne hji, Table.clearRecording, Function.update_of_ne hji]
  have hkeepi : r'.1 i = e.slot := by
    rw [Table.runFrom_of_used _ hrun (by rw [hsloti]; exact FileIndex.occupied_of_listed hnew),
      hsloti]
  have hkeepj : r'.1 j = t j := by
    rw [Table.runFrom_of_used _ hrun (by rw [hslotj]; exact FileIndex.occupied_of_listed hlisted),
      hslotj]
  refine ⟨r'.1, dotties ++ r'.1.listing, ?_, ?_⟩
  · rw [Table.vbsReaddir, if_neg (not_not.mpr rfl), hr']
    rfl
  · have hnamei : (r'.1 i).filename = some e.name := by
      rw [hkeepi]
      exact (Entry.slot_used hstays).2
    have hnamej : (r'.1 j).filename = some e.name := by
      rw [hkeepj]
      exact (Table.slots_eq_some_iff.mp hj).2
    have htwice := Table.two_le_count_listing hji.symm (by rw [hkeepi]; exact hnew)
      (by rw [hkeepj]; exact hlisted) hnamei hnamej
    rw [List.count_append]
    omega

/-- After `ab` is deleted, `ba` is listed twice. -/
theorem listed_twice_ba : ∃ (t' : Table 1024) (filled : List (Option Name)),
    (indexedBoth.clearRecording 195).vbsReaddir rootPath [.entries [ba]] =
      some (t', some filled) ∧ 2 ≤ filled.count (some ba.name) := by
  have hmeets : Table.Meets indexedAb (.entry ba) :=
    ⟨fun _ htouches => htouches.elim, fun _ _ hgone => hgone.elim⟩
  have hreach : (system 1024).ReachableUnder Table.Meets indexedBoth :=
    (indexedAb_reachable.mono fun _ _ hok => hok.2.meets hok.1).step hmeets next_ba
  exact listed_twice hreach (r := ab.name) (i := 195) (j := 196) (by decide) (by decide) (by decide)
    (by decide) (by decide) present_stays (by decide) (by decide) [] []

end VlbiStreamer.FuseIndex
