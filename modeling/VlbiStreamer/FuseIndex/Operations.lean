import VlbiStreamer.FuseIndex.Recording
import VlbiStreamer.Library.Transition

/-!
# The operations of the file system

`rebuild_file_index` enters the names of all drives into the table when the root
directory is listed; `vbs_getattr`, `vbs_open` and `vbs_read` look one name up.
Each takes a table to the next one, or to `none` where the program calls
`strcmp` with a null pointer or writes before the start of the table.

`Sound` is the invariant of the table.  It is kept by every operation that looks
up a `Visible` name and clears no slot another name is found over
(`Sound.next`).
-/

namespace VlbiStreamer.FuseIndex

open Library Library.LinearProbing

/-- An entry of the directory of a drive, and what is met on the way when it is
indexed. -/
structure Entry where
  name : Name
  nonempty : name ≠ []
  disk : Disk

/-- `.` and `..`. -/
def Entry.dotty (e : Entry) : Bool := e.name == [46, 46] || e.name == [46]

/-- `opendir` of the root of a drive: no such drive, another error, or its entries. -/
inductive Drive where
  | absent
  | failed
  | entries (es : List Entry)

namespace FileIndex

/-- `vbs_getattr`, from the slot on. -/
def getattr (d : Disk) (fi : FileIndex) : FileIndex × Bool :=
  if fi.status.notVbs then (fi, false)
  else if !fi.status.initialized then createSingleFileIndex d fi
  else if fi.status.noCfg then updateNocfgIndex d fi
  else (fi, true)

/-- `vbs_open`, from the slot on. -/
def vbsOpen (d : Disk) (fi : FileIndex) : FileIndex × Bool :=
  if fi.status.notVbs then (fi, false)
  else if !fi.status.initialized then createSingleFileIndex d fi
  else if fi.status.noCfg then updateNocfgIndex d fi
  else
    let fi := (genericDoToEachSubfolder d false fi).1
    -- the recording seems to have been removed
    if fi.status.found then (fi, true) else (cleared, false)

variable {fi : FileIndex}

theorem survives_getattr (d : Disk) (h : fi.isFree = false) (hfound : fi.status.found = true) :
    SurvivesOrGone d fi (getattr d fi).1 := by
  have hsame : SurvivesOrGone d fi fi := .inl ⟨h, rfl, id⟩
  unfold getattr
  split
  · exact hsame
  split
  · exact survives_createSingleFileIndex d h hfound
  split
  next hnocfg => exact survives_updateNocfgIndex d (.inl hnocfg) hfound
  · exact hsame

theorem survives_vbsOpen (d : Disk) (h : fi.isFree = false) (hfound : fi.status.found = true) :
    SurvivesOrGone d fi (vbsOpen d fi).1 := by
  unfold vbsOpen
  split
  · exact .inl ⟨h, rfl, id⟩
  split
  · exact survives_createSingleFileIndex d h hfound
  next hinit =>
  split
  next hnocfg => exact survives_updateNocfgIndex d (.inl hnocfg) hfound
  have hknown : fi.Known := .inr (.inr (by simpa using hinit))
  rcases genericDoToEachSubfolder_spec d false hknown with ⟨hs, -⟩ | ⟨hgone, heq⟩
  · rw [if_pos (hs.found hfound)]
    exact .inl hs
  · rw [heq]
    exact .inr ⟨hgone, rfl⟩

end FileIndex

variable {n : ℕ}

namespace Table

/-- Run one of these functions on slot `i`. -/
def touch (t : Table n) (f : FileIndex → FileIndex × Bool) (i : Fin n) : Table n :=
  Function.update t i (f (t i)).1

variable [NeZero n]

/-- The loop of `rebuild_file_index` at one entry. -/
def indexEntry (t : Table n) (e : Entry) : Option (Table n) :=
  if e.dotty then some t
  else
    match t.vbsHashfunction e.name false with
    | .slot i =>
        if 0 < i.val ∧ (t i).isFree then
          some ((t.addFileToIndex e.name i).touch (FileIndex.createSingleFileIndex e.disk) i)
        else some t
    | .minusOne => some t
    | .nullName | .endless => none

/-- `rebuild_file_index`, with what it returns. -/
def rebuildFileIndex (t : Table n) : List Drive → Option (Table n × Bool)
  | [] => some (t, true)
  | .absent :: _ => some (t, true)
  | .failed :: _ => some (t, false)
  | .entries es :: rest => (es.foldlM indexEntry t).bind fun t => rebuildFileIndex t rest

/-- `vbs_getattr`; `found` is whether `quickcheck_index_for_file` finds the name on a drive. -/
def vbsGetattr (t : Table n) (name : Name) (found : Bool) (d : Disk) : Option (Table n) :=
  -- the root directory
  if name = [] then some t
  else
    match t.vbsHashfunction name true with
    | .slot i => some (t.touch (FileIndex.getattr d) i)
    | .minusOne =>
        if found then
          match t.vbsHashfunction name false with
          | .slot i => some ((t.addFileToIndex name i).touch (FileIndex.getattr d) i)
          | .minusOne | .nullName | .endless => none
        else some t
    | .nullName | .endless => none

/-- `vbs_open`. -/
def vbsOpen (t : Table n) (name : Name) (d : Disk) : Option (Table n) :=
  match t.vbsHashfunction name true with
  | .slot i => some (t.touch (FileIndex.vbsOpen d) i)
  | .minusOne => some t
  | .nullName | .endless => none

/-- `vbs_read`, which only reads the slot. -/
def vbsRead (t : Table n) (name : Name) : Option (Table n) :=
  match t.vbsHashfunction name true with
  | .slot _ | .minusOne => some t
  | .nullName | .endless => none

end Table

/-- What the file system is asked to do; a call of `rebuild_file_index` is one step for
each entry. -/
inductive Action where
  | entry (e : Entry)
  | getattr (name : Name) (found : Bool) (d : Disk)
  | vbsOpen (name : Name) (d : Disk)
  | vbsRead (name : Name)

namespace Action

/-- The name is looked up and its slot worked on. -/
def Touches : Action → Name → Prop
  | .getattr name _ _, key | .vbsOpen name _, key => name = key
  | .entry _, _ | .vbsRead _, _ => False

/-- The name is looked up by `vbs_hashfunction(name, 1)`. -/
def Looks : Action → Name → Prop
  | .getattr name _ _, key | .vbsOpen name _, key | .vbsRead name, key => name = key
  | .entry _, _ => False

/-- The name is there to be added. -/
def Adds : Action → Name → Prop
  | .entry e, key => e.dotty = false ∧ e.name = key
  | .getattr name found _, key => found = true ∧ name ≠ [] ∧ name = key
  | .vbsOpen _ _, _ | .vbsRead _, _ => False

/-- The recording whose slot is worked on is gone from all drives. -/
def Gone : Action → Name → Prop
  | .getattr name _ d, key | .vbsOpen name d, key => d.Gone ∧ name = key
  | .entry _, _ | .vbsRead _, _ => False

theorem Adds.nonempty {a : Action} {name : Name} (h : a.Adds name) : name ≠ [] := by
  cases a with
  | entry e => exact h.2 ▸ e.nonempty
  | getattr name' found d => exact h.2.2 ▸ h.2.1
  | vbsOpen name' d => exact h.elim
  | vbsRead name' => exact h.elim

end Action

variable [NeZero n]

/-- The next table. -/
def next (t : Table n) : Action → Option (Table n)
  | .entry e => t.indexEntry e
  | .getattr name found d => t.vbsGetattr name found d
  | .vbsOpen name d => t.vbsOpen name d
  | .vbsRead name => t.vbsRead name

/-- The file system, from the table of `vbs_init` on. -/
def system (n : ℕ) [NeZero n] : System (Table n) Action :=
  System.ofNext (fun t => t = Table.empty n) next

/-- The entries `rebuild_file_index` comes to. -/
def visited : List Drive → List Entry
  | .entries es :: rest => es ++ visited rest
  | _ => []

/-- `rebuild_file_index` is one step after the other. -/
theorem rebuildFileIndex_eq (t : Table n) (drives : List Drive) :
    (t.rebuildFileIndex drives).map Prod.fst =
      System.runFrom next t ((visited drives).map Action.entry) := by
  have hfold : ∀ (es : List Entry) (t : Table n),
      es.foldlM Table.indexEntry t = System.runFrom next t (es.map Action.entry) := by
    intro es
    induction es with
    | nil => intro t; rfl
    | cons e es ih =>
        intro t
        rw [List.foldlM_cons]
        exact Option.bind_congr fun t' _ => ih t'
  induction drives generalizing t with
  | nil => rfl
  | cons drive rest ih =>
      cases drive with
      | absent => rfl
      | failed => rfl
      | entries es =>
          rw [Table.rebuildFileIndex, visited, List.map_append, System.runFrom_append, ← hfold,
            Option.map_bind]
          exact Option.bind_congr fun t' _ => ih t'

namespace Table

variable {t : Table n} {key name : Name} {i : Fin n} {d : Disk}

/-! ## The invariant -/

/-- The names are where they are looked for, and every slot in use was found. -/
structure Sound (t : Table n) : Prop where
  named : t.Named
  probed : Probed home t.slots
  found : ∀ i, (t i).isFree = false → (t i).status.found = true

theorem sound_empty : Sound (empty n) :=
  ⟨named_empty, by rw [slots_empty]; exact Probed.empty home, fun i h => by simp [empty] at h⟩

/-- The name has a slot, or the slot where it is first looked for is free. -/
def Visible (t : Table n) (key : Name) : Prop := t.Stored key ∨ t.slots (home key) = none

namespace Sound

theorem free (h : t.Sound) (hi : t.slots i = none) : (t i).isFree = true :=
  h.named.slots_eq_none_iff.mp hi

/-- The answer for a name that has a slot. -/
theorem vbsHashfunction_stored (h : t.Sound) (hkey : key ≠ []) (hi : t.slots i = some key)
    (getNotSet : Bool) : t.vbsHashfunction key getNotSet = .slot i := by
  have hstops := h.probed.stopsAt hi
  rw [vbsHashfunction_stopsAt h.named hkey hstops, if_neg]
  rintro ⟨-, hfree⟩
  obtain rfl := hstops.unique (StopsAt.of_free hfree)
  simp [hfree] at hi

/-- The answer for a name whose home slot is free. -/
theorem vbsHashfunction_home (h : t.Sound) (hkey : key ≠ []) (hfree : t.slots (home key) = none)
    (getNotSet : Bool) : t.vbsHashfunction key getNotSet =
      if getNotSet then .minusOne else .slot (home key) := by
  rw [vbsHashfunction_stopsAt h.named hkey (StopsAt.of_free hfree)]
  simp [hfree]

/-- The answer for a name that has no slot and whose home slot is in use. -/
theorem vbsHashfunction_hidden (h : t.Sound) (hkey : key ≠ [])
    (hstops : StopsAt t.slots key (home key) i) (hhome : t.slots (home key) ≠ none)
    (getNotSet : Bool) : t.vbsHashfunction key getNotSet = .slot i := by
  rw [vbsHashfunction_stopsAt h.named hkey hstops, if_neg fun hand => hhome hand.2]

/-- One slot is changed. -/
theorem update {fi : FileIndex} (h : t.Sound)
    (hprobed : Probed home (slots (Function.update t i fi)))
    (hocc : fi.isFree = false → fi.filename ≠ none ∧ fi.status.found = true) :
    Sound (Function.update t i fi) := by
  refine ⟨fun j hj => ?_, hprobed, fun j hj => ?_⟩
  · rw [Function.update_apply] at hj ⊢
    split at hj
    next heq =>
      rw [if_pos heq]
      exact (hocc hj).1
    next heq =>
      rw [if_neg heq]
      exact h.named j hj
  · rw [Function.update_apply] at hj ⊢
    split at hj
    next heq =>
      rw [if_pos heq]
      exact (hocc hj).2
    next heq =>
      rw [if_neg heq]
      exact h.found j hj

/-- A name may be put where its walk ends. -/
theorem add (h : t.Sound) (hstops : StopsAt t.slots name (home name) i)
    (hfree : t.slots i = none) : Sound (t.addFileToIndex name i) := by
  refine h.update ?_ fun _ => ⟨by simp, rfl⟩
  rw [← addFileToIndex, slots_addFileToIndex]
  exact h.probed.insert hstops hfree

/-- A slot may be cleared that no other name is found over. -/
theorem clear (h : t.Sound) (hs : Spares home t.slots i) : Sound (t.clearRecording i) := by
  refine h.update ?_ fun hocc => by simp at hocc
  rw [← clearRecording, slots_clearRecording]
  exact h.probed.erase hs

/-- What a function that looks at a recording does to the table. -/
theorem touch_cases {f : FileIndex → FileIndex × Bool} (h : t.Sound) (hi : t.slots i = some key)
    (hf : FileIndex.SurvivesOrGone d (t i) (f (t i)).1) :
    (Sound (t.touch f i) ∧ (t.touch f i).slots = t.slots) ∨
      (d.Gone ∧ t.touch f i = t.clearRecording i) := by
  obtain ⟨hocc, hname⟩ := slots_eq_some_iff.mp hi
  rcases hf with hs | ⟨hgone, hcleared⟩
  · have hslots : (t.touch f i).slots = t.slots := by
      rw [touch, slots_update, hs.occupied, hs.filename, hname, ← hi]
      exact Function.update_eq_self i t.slots
    refine .inl ⟨h.update ?_ fun _ => ⟨?_, hs.found (h.found i hocc)⟩, hslots⟩
    · rw [← touch, hslots]
      exact h.probed
    · rw [hs.filename, hname]
      simp
  · exact .inr ⟨hgone, by rw [touch, hcleared, clearRecording]⟩

/-- A name that was just put where its walk ends stays there, or is taken away again. -/
theorem added_cases {f : FileIndex → FileIndex × Bool} (h : t.Sound)
    (hstops : StopsAt t.slots name (home name) i) (hfree : t.slots i = none)
    (hf : ∀ fi : FileIndex, fi.isFree = false → fi.status.found = true →
      FileIndex.SurvivesOrGone d fi (f fi).1) :
    Sound ((t.addFileToIndex name i).touch f i) ∧
      (((t.addFileToIndex name i).touch f i).slots = Function.update t.slots i (some name) ∨
        d.Gone ∧ ((t.addFileToIndex name i).touch f i).slots = t.slots) := by
  have hadd := h.add hstops hfree
  have hslots := slots_addFileToIndex t name i
  have hi : (t.addFileToIndex name i).slots i = some name := by rw [hslots, Function.update_self]
  have hocc := (slots_eq_some_iff.mp hi).1
  rcases hadd.touch_cases hi (hf _ hocc (hadd.found i hocc)) with ⟨hsound, hsame⟩ | ⟨hgone, heq⟩
  · exact ⟨hsound, .inl (hsame.trans hslots)⟩
  · have hback : ((t.addFileToIndex name i).clearRecording i).slots = t.slots := by
      rw [slots_clearRecording, hslots, Function.update_idem, ← hfree]
      exact Function.update_eq_self i t.slots
    refine ⟨?_, .inr ⟨hgone, heq ▸ hback⟩⟩
    rw [heq]
    refine hadd.clear ?_
    rw [hslots]
    exact h.probed.spares_insert hfree

end Sound

/-! ## One step -/

/-- The names the step works on are visible, and the slots it clears are none that other
names are found over. -/
structure Meets (t : Table n) (a : Action) : Prop where
  visible : ∀ name, a.Touches name → t.Visible name
  spares : ∀ name i, a.Gone name → t.slots i = some name → Spares home t.slots i

/-- What a step does to the names: nothing, or it puts one where its walk ends, or it clears
the slot of one that is gone. -/
inductive Change (t : Table n) (a : Action) (t' : Table n) : Prop where
  | same : t'.slots = t.slots → Change t a t'
  | added (name : Name) (i : Fin n) : a.Adds name → StopsAt t.slots name (home name) i →
      t.slots i = none → t'.slots = Function.update t.slots i (some name) → Change t a t'
  | removed (name : Name) (i : Fin n) : a.Gone name → t.slots i = some name →
      t'.slots = Function.update t.slots i none → Change t a t'

namespace Sound

/-- The answer for any name: a slot where its walk ends, or none because every slot has
another name. -/
theorem answer_cases (h : t.Sound) (key : Name) (getNotSet : Bool) :
    (∃ i, t.vbsHashfunction key getNotSet = .slot i) ∨
      t.vbsHashfunction key getNotSet = .minusOne := by
  by_cases hkey : key = []
  · exact .inr (by rw [vbsHashfunction, if_pos hkey])
  by_cases hstop : ∃ i, t.slots i = none ∨ t.slots i = some key
  · obtain ⟨i, hi⟩ := hstop
    obtain ⟨j, hj⟩ := StopsAt.exists_of_stop (a := home key) hi
    rw [vbsHashfunction_stopsAt h.named hkey hj]
    split
    · exact .inr rfl
    · exact .inl ⟨j, rfl⟩
  · push Not at hstop
    exact .inr (vbsHashfunction_full h.named hstop getNotSet)

/-- One entry of a directory. -/
theorem indexEntry_cases (h : t.Sound) (e : Entry) :
    ∃ t', t.indexEntry e = some t' ∧ t'.Sound ∧ Change t (.entry e) t' := by
  unfold indexEntry
  cases hdotty : e.dotty with
  | true => exact ⟨t, rfl, h, .same rfl⟩
  | false =>
      rw [if_neg (by simp)]
      by_cases hstop : ∃ i, t.slots i = none ∨ t.slots i = some e.name
      · obtain ⟨i, hi⟩ := hstop
        obtain ⟨j, hj⟩ := StopsAt.exists_of_stop (a := home e.name) hi
        rw [vbsHashfunction_stopsAt h.named e.nonempty hj, if_neg (by simp)]
        by_cases hput : 0 < j.val ∧ (t j).isFree
        · have hfree : t.slots j = none := h.named.slots_eq_none_iff.mpr hput.2
          obtain ⟨hsound, hslots⟩ := h.added_cases hj hfree (d := e.disk)
            fun _ => FileIndex.survives_createSingleFileIndex e.disk
          refine ⟨_, if_pos hput, hsound, ?_⟩
          rcases hslots with hput | ⟨-, hsame⟩
          · exact .added e.name j ⟨hdotty, rfl⟩ hj hfree hput
          · exact .same hsame
        · exact ⟨t, if_neg hput, h, .same rfl⟩
      · push Not at hstop
        rw [vbsHashfunction_full h.named hstop]
        exact ⟨t, rfl, h, .same rfl⟩

/-- A function is run on the slot of a name. -/
theorem work_cases {f : FileIndex → FileIndex × Bool} (h : t.Sound) (hi : t.slots i = some key)
    (hf : ∀ fi : FileIndex, fi.isFree = false → fi.status.found = true →
      FileIndex.SurvivesOrGone d fi (f fi).1)
    (hs : d.Gone → Spares home t.slots i) :
    Sound (t.touch f i) ∧ ((t.touch f i).slots = t.slots ∨
      d.Gone ∧ (t.touch f i).slots = Function.update t.slots i none) := by
  have hocc := (slots_eq_some_iff.mp hi).1
  rcases h.touch_cases hi (hf _ hocc (h.found i hocc)) with ⟨hsound, hsame⟩ | ⟨hgone, heq⟩
  · exact ⟨hsound, .inl hsame⟩
  · rw [heq]
    exact ⟨h.clear (hs hgone), .inr ⟨hgone, slots_clearRecording t i⟩⟩

/-- The attributes of a name. -/
theorem vbsGetattr_cases {found : Bool} (h : t.Sound) (hm : Meets t (.getattr name found d)) :
    ∃ t', t.vbsGetattr name found d = some t' ∧ t'.Sound ∧ Change t (.getattr name found d) t' := by
  unfold vbsGetattr
  by_cases hname : name = []
  · exact ⟨t, if_pos hname, h, .same rfl⟩
  rw [if_neg hname]
  rcases hm.visible name rfl with ⟨i, hi⟩ | hfree
  · rw [h.vbsHashfunction_stored hname hi]
    obtain ⟨hsound, hslots⟩ := h.work_cases hi (fun _ => FileIndex.survives_getattr d)
      fun hgone => hm.spares name i ⟨hgone, rfl⟩ hi
    refine ⟨_, rfl, hsound, ?_⟩
    rcases hslots with hsame | ⟨hgone, hcleared⟩
    · exact .same hsame
    · exact .removed name i ⟨hgone, rfl⟩ hi hcleared
  · rw [h.vbsHashfunction_home hname hfree, if_pos rfl]
    cases found with
    | false => exact ⟨t, rfl, h, .same rfl⟩
    | true =>
        simp only [if_true, h.vbsHashfunction_home hname hfree, Bool.false_eq_true, if_false]
        obtain ⟨hsound, hslots⟩ := h.added_cases (StopsAt.of_free hfree) hfree
          fun _ => FileIndex.survives_getattr d
        refine ⟨_, rfl, hsound, ?_⟩
        rcases hslots with hput | ⟨-, hsame⟩
        · exact .added name (home name) ⟨rfl, hname, rfl⟩ (StopsAt.of_free hfree) hfree hput
        · exact .same hsame

/-- A name is opened. -/
theorem vbsOpen_cases (h : t.Sound) (hm : Meets t (.vbsOpen name d)) :
    ∃ t', t.vbsOpen name d = some t' ∧ t'.Sound ∧ Change t (.vbsOpen name d) t' := by
  unfold vbsOpen
  by_cases hname : name = []
  · rw [vbsHashfunction, if_pos hname]
    exact ⟨t, rfl, h, .same rfl⟩
  rcases hm.visible name rfl with ⟨i, hi⟩ | hfree
  · rw [h.vbsHashfunction_stored hname hi]
    obtain ⟨hsound, hslots⟩ := h.work_cases hi (fun _ => FileIndex.survives_vbsOpen d)
      fun hgone => hm.spares name i ⟨hgone, rfl⟩ hi
    refine ⟨_, rfl, hsound, ?_⟩
    rcases hslots with hsame | ⟨hgone, hcleared⟩
    · exact .same hsame
    · exact .removed name i ⟨hgone, rfl⟩ hi hcleared
  · rw [h.vbsHashfunction_home hname hfree]
    exact ⟨t, rfl, h, .same rfl⟩

/-- **One step** keeps the table sound. -/
theorem next_cases {a : Action} (h : t.Sound) (hm : Meets t a) :
    ∃ t', next t a = some t' ∧ t'.Sound ∧ Change t a t' := by
  cases a with
  | entry e => exact h.indexEntry_cases e
  | getattr name found d => exact h.vbsGetattr_cases hm
  | vbsOpen name d => exact h.vbsOpen_cases hm
  | vbsRead name =>
      refine ⟨t, ?_, h, .same rfl⟩
      show t.vbsRead name = some t
      unfold vbsRead
      rcases h.answer_cases name true with ⟨i, heq⟩ | heq <;> rw [heq]

end Sound

end Table

end VlbiStreamer.FuseIndex
