import VlbiStreamer.ResourceTree.Representation

/-!
# Every operation keeps a branch well formed

`WellFormed s` spells out what the three lists of a branch are supposed to be,
in terms of the heap alone.  It holds of every heap that `Represents` some
lists, and every operation of `resourcetree.c` leads from such a heap to such a
heap, so it holds after every sequence of operations that starts from an empty
branch (`wellFormed_of_run`).  The same theorem says that no operation ever
follows a `NULL` pointer or walks in a circle.

The operations that look entities up return one of a few answers; each has one
lemma (`getFree_cases`, `getSpecific_cases`, ..) which lists them together with
what happened to the heap.  Only a move (`mutexFreeChangeBranch`) ever does.
-/

set_option linter.unusedSectionVars false

namespace VlbiStreamer.ResourceTree

open Library (Seg)

variable {κ ε : Type} [DecidableEq κ]

namespace Lists

/-! ## Searching and unlinking -/

/-- The assignments with which `remove_from_branch` ends. -/
private def release (s : Lists κ ε) (e : ℕ) : Lists κ ε :=
  let s := (s.setChild e none).setFather e none
  { s with live := s.live.erase e }

namespace Represents

variable {s t : Lists κ ε} {L : κ → List ℕ} {k : κ} {e : ℕ}

/-- A walk along a segment finds the first entity that is identified. -/
theorem loopAndCheck_seg (identify : ε → Bool) (l : List ℕ) :
    ∀ (fuel : ℕ) (p h : Option ℕ), l.length ≤ fuel →
      Seg s.children s.fathers p h l none →
      s.loopAndCheck identify fuel h
        = some (l.find? fun e => identify (s.heap e).entity) := by
  induction l with
  | nil =>
      intro fuel p h _ hseg
      obtain rfl : h = none := hseg
      cases fuel <;> rfl
  | cons a l ih =>
      intro fuel p h hfuel hseg
      obtain ⟨n, rfl⟩ : ∃ n, fuel = n + 1 := ⟨fuel - 1, by simp at hfuel; omega⟩
      obtain ⟨rfl, -, hrest⟩ := hseg
      have hnext := ih n (some a) (s.heap a).child (by simpa using hfuel) hrest
      by_cases hid : identify (s.heap a).entity
      · simp [loopAndCheck, hid]
      · simp [loopAndCheck, hid, hnext]

/-- `loop_and_check` on a whole list. -/
theorem loopAndCheck (h : Represents s L) (identify : ε → Bool) (k : κ) :
    s.loopAndCheck identify s.live.card (s.root k)
      = some ((L k).find? fun e => identify (s.heap e).entity) :=
  loopAndCheck_seg identify (L k) _ none _ (h.length_le k) (h.seg k)

theorem mem_live (h : Represents s L) (he : e ∈ L k) : e ∈ s.live :=
  (h.live e).mpr ⟨k, he⟩

/-- The links of an entity that is on no list do not matter. -/
private theorem chains_release (h : Chains s L) (hmem : ∀ k, e ∉ L k) :
    Chains (s.release e) L := by
  have hdata := (SameData.setChild s e none).trans (SameData.setFather _ e none)
  refine h.congr rfl fun k x hx => ?_
  have hne : x ≠ e := by rintro rfl; exact hmem k hx
  have hchildren : ((s.setChild e none).setFather e none).children x = s.children x := by
    simp [Function.update_of_ne hne]
  have hfathers : ((s.setChild e none).setFather e none).fathers x = s.fathers x := by
    simp [Function.update_of_ne hne]
  exact ⟨hchildren, hfathers, hdata.branch x⟩

/-- **`remove_from_branch` drops the entity** from its list and from the
allocated entities, and nothing else. -/
theorem removeFromBranch (h : Represents s L) (he : e ∈ s.live) :
    Represents (s.removeFromBranch e) (dropFrom L e) ∧
      (s.removeFromBranch e).live = s.live.erase e := by
  have hmem := h.mem_branch he
  have hunlink : ∃ t, SameData s t ∧ Chains t (dropFrom L e) ∧
      s.removeFromBranch e = t.release e := by
    by_cases hroot : s.root (s.heap e).currentBranch = some e
    · have hdata := (SameData.setFatherIf s (s.heap e).child none).trans
        (SameData.setRoot _ (s.heap e).currentBranch (s.heap e).child)
      refine ⟨_, hdata, h.toChains.unlink_head hroot hmem (by simp; rfl) (by simp)
        (by simp; rfl) hdata, ?_⟩
      simp only [Lists.removeFromBranch, if_pos hroot, release]
    · obtain ⟨f, hf, hchains⟩ := h.toChains.unlink_after hroot hmem
      have hdata := (SameData.setChild s f (s.heap e).child).trans
        (SameData.setFatherIf _ (s.heap e).child (some f))
      refine ⟨_, hdata, hchains, ?_⟩
      simp only [Lists.removeFromBranch, if_neg hroot, hf, release]
  obtain ⟨t, hdata, hchains, heq⟩ := hunlink
  have hlive : (s.removeFromBranch e).live = s.live.erase e := by
    rw [heq]
    show t.live.erase e = s.live.erase e
    rw [hdata.live]
  refine ⟨⟨?_, fun x => ?_⟩, hlive⟩
  · rw [heq]
    exact chains_release hchains fun k => (h.nodup k).not_mem_erase
  · rw [hlive, Finset.mem_erase, h.live x]
    constructor
    · rintro ⟨hne, k, hk⟩
      exact ⟨k, (List.mem_erase_of_ne hne).mpr hk⟩
    · rintro ⟨k, hk⟩
      refine ⟨?_, k, List.mem_of_mem_erase hk⟩
      rintro rfl
      exact (h.nodup k).not_mem_erase hk

end Represents

end Lists

namespace EntityListBranch

open BranchList Lists

variable {s t : EntityListBranch ε} {L : BranchList → List ℕ} {e : ℕ}

/-- An empty branch has three empty lists. -/
theorem IsEmpty.represents (h : IsEmpty s) : Represents s fun _ => [] where
  seg k := h.root k
  nodup _ := List.nodup_nil
  branch _ _ he := absurd he List.not_mem_nil
  live e := by simp [h.live]

/-- **`add_to_entlist` puts a new entity at the end of the free list.** -/
theorem addToEntlist_spec (h : Represents s L) (he : e ∉ s.live)
    (le : ListedEntity BranchList ε) :
    ∃ t, s.addToEntlist e le = some t ∧
      Represents t (Function.update L freelist (L freelist ++ [e])) ∧
      t.live = insert e s.live := by
  have hmem : ∀ k, e ∉ L k := fun k hk => he (h.mem_live hk)
  have hchains : Chains ({ s with
      heap := Function.update s.heap e le, live := insert e s.live }) L := by
    refine h.toChains.congr rfl fun k x hx => ?_
    have hne : x ≠ e := by rintro rfl; exact hmem k hx
    simp [children, fathers, Function.update_of_ne hne]
  have hfuel : (L freelist).length ≤ (insert e s.live).card :=
    (h.length_le freelist).trans (Finset.card_le_card (Finset.subset_insert e s.live))
  obtain ⟨t, ht, hchains', hdata⟩ := hchains.addToNext (k := freelist) hmem hfuel
  have hlive : t.live = insert e s.live := hdata.live
  refine ⟨t, ht, ⟨hchains', fun x => ?_⟩, hlive⟩
  rw [hlive, Finset.mem_insert, h.live x]
  constructor
  · rintro (rfl | ⟨k, hk⟩)
    · exact ⟨freelist, by simp⟩
    · refine ⟨k, ?_⟩
      cases k with
      | freelist => simp [hk]
      | busylist => simpa using hk
      | loadedlist => simpa using hk
  · rintro ⟨k, hk⟩
    cases k with
    | freelist =>
        rw [Function.update_self, List.mem_append, List.mem_singleton] at hk
        exact hk.symm.imp id fun hold => ⟨freelist, hold⟩
    | busylist => exact .inr ⟨busylist, by simpa using hk⟩
    | loadedlist => exact .inr ⟨loadedlist, by simpa using hk⟩

/-! ## The operations that look an entity up -/

/-- `get_free` without a `check` takes the head, with one the first fit
entity: either way an entity of the free list. -/
theorem getFree_cases (h : Represents s L) (check : Option (ε → Bool)) :
    (∃ r, s.getFree check = some (r, s) ∧ (r = .null ∨ r = .sleep)) ∨
    (∃ en t, s.getFree check = some (.got en, t) ∧ en ∈ L freelist ∧
      s.mutexFreeChangeBranch busylist en = some t) := by
  have htemp : ∃ temp, s.firstFit check = some temp ∧
      ∀ en, temp = some en → en ∈ L freelist := by
    cases check with
    | none =>
        refine ⟨s.root freelist, rfl, fun en hen => ?_⟩
        have hseg := h.seg freelist
        cases hl : L freelist with
        | nil => simp [hl, hen] at hseg
        | cons a l =>
            rw [hl] at hseg
            obtain rfl : en = a := Option.some.inj (hen.symm.trans hseg.1)
            simp
    | some fit =>
        exact ⟨_, h.loopAndCheck fit freelist, fun en hen => List.mem_of_find?_eq_some hen⟩
  obtain ⟨temp, htemp, hmem⟩ := htemp
  cases temp with
  | none =>
      left
      by_cases hempty : s.root busylist = none ∧ s.root loadedlist = none
      · exact ⟨.null, by simp [getFree, htemp, hempty], .inl rfl⟩
      · exact ⟨.sleep, by simp [getFree, htemp, hempty], .inr rfl⟩
  | some en =>
      right
      have hen := hmem en rfl
      obtain ⟨t, ht, -⟩ := h.mutexFreeChangeBranch (h.mem_live hen) busylist
      exact ⟨en, t, by simp [getFree, htemp, mutexFreeSetBusy, ht], hen, ht⟩

/-- `get_from_all` finds an identified entity on the list it names. -/
theorem getFromAll_spec (h : Represents s L) (identify : ε → Bool) :
    ∃ r, s.getFromAll identify = some r ∧
      ∀ en k, r = some (en, k) → en ∈ L k ∧ identify (s.heap en).entity := by
  have hfind : ∀ (k : BranchList) en,
      (L k).find? (fun e => identify (s.heap e).entity) = some en →
      en ∈ L k ∧ identify (s.heap en).entity := fun k en hen =>
    ⟨List.mem_of_find?_eq_some hen, by simpa using List.find?_some hen⟩
  unfold getFromAll
  simp only [h.loopAndCheck, Option.bind_eq_bind, Option.bind_some]
  cases hf : (L freelist).find? (fun e => identify (s.heap e).entity) with
  | some en => exact ⟨_, rfl, by rintro _ _ ⟨⟩; exact hfind _ _ hf⟩
  | none =>
    cases hb : (L busylist).find? (fun e => identify (s.heap e).entity) with
    | some en => exact ⟨_, rfl, by rintro _ _ ⟨⟩; exact hfind _ _ hb⟩
    | none =>
      cases hl : (L loadedlist).find? (fun e => identify (s.heap e).entity) with
      | some en => exact ⟨_, rfl, by rintro _ _ ⟨⟩; exact hfind _ _ hl⟩
      | none => exact ⟨_, rfl, by rintro _ _ ⟨⟩⟩

/-- `get_specific` gives up, queues for an entity that is busy or loaded, or
takes a free one. -/
theorem getSpecific_cases (h : Represents s L) (identify : ε → Bool) :
    s.getSpecific identify = some (.null, s) ∨
    (∃ en k, s.getSpecific identify = some (.queue en, s) ∧ en ∈ L k ∧ k ≠ freelist ∧
      s.getFromAll identify = some (some (en, k))) ∨
    (∃ en t, s.getSpecific identify = some (.got en, t) ∧ en ∈ L freelist ∧
      s.mutexFreeChangeBranch busylist en = some t) := by
  obtain ⟨r, hr, hmem⟩ := getFromAll_spec h identify
  unfold getSpecific
  rw [hr]
  match r, hmem with
  | none, _ => exact .inl rfl
  | some (en, busylist), hmem =>
      exact .inr (.inl ⟨en, busylist, rfl, (hmem _ _ rfl).1, by simp, rfl⟩)
  | some (en, loadedlist), hmem =>
      exact .inr (.inl ⟨en, loadedlist, rfl, (hmem _ _ rfl).1, by simp, rfl⟩)
  | some (en, freelist), hmem =>
      have hen := (hmem _ _ rfl).1
      obtain ⟨t, ht, -⟩ := h.mutexFreeChangeBranch (h.mem_live hen) busylist
      exact .inr (.inr ⟨en, t, by simp [ht], hen, ht⟩)

/-- `get_loaded` gives up, fails its assertion, queues for a busy entity, or
takes a loaded one. -/
theorem getLoaded_cases (h : Represents s L) (identify : ε → Bool) :
    (∃ r, s.getLoaded identify = some (r, s) ∧ (r = .null ∨ r = .assertFailed)) ∨
    (∃ en, s.getLoaded identify = some (.queue en, s) ∧ en ∈ L busylist) ∨
    (∃ en t, s.getLoaded identify = some (.got en, t) ∧ en ∈ L loadedlist ∧
      s.mutexFreeChangeBranch busylist en = some t) := by
  obtain ⟨r, hr, hmem⟩ := getFromAll_spec h identify
  unfold getLoaded
  rw [hr]
  match r, hmem with
  | none, _ => exact .inl ⟨.null, rfl, .inl rfl⟩
  | some (en, freelist), _ => exact .inl ⟨.assertFailed, rfl, .inr rfl⟩
  | some (en, busylist), hmem => exact .inr (.inl ⟨en, rfl, (hmem _ _ rfl).1⟩)
  | some (en, loadedlist), hmem =>
      have hen := (hmem _ _ rfl).1
      obtain ⟨t, ht, -⟩ := h.mutexFreeChangeBranch (h.mem_live hen) busylist
      exact .inr (.inr ⟨en, t, by simp [ht], hen, ht⟩)

/-- The test of the first loop of `block_until_free` finds a busy entity or
none. -/
theorem blockOnBusy_cases (h : Represents s L) (identify : ε → Bool) :
    s.blockOnBusy identify = some (.null, s) ∨
    (∃ en, s.blockOnBusy identify = some (.queue en, s) ∧ en ∈ L busylist) := by
  unfold blockOnBusy
  rw [h.loopAndCheck identify busylist]
  cases hfind : (L busylist).find? (fun e => identify (s.heap e).entity) with
  | none => exact .inl rfl
  | some en => exact .inr ⟨en, rfl, List.mem_of_find?_eq_some hfind⟩

/-- What `get_free` gets was free. -/
theorem getFree_got (h : Represents s L) {check : Option (ε → Bool)}
    (hr : s.getFree check = some (.got e, t)) : (s.heap e).currentBranch = freelist := by
  rcases getFree_cases h check with ⟨r, hr', hnone⟩ | ⟨en, t', hr', hen, -⟩
  · obtain ⟨rfl, -⟩ := Prod.mk.inj (Option.some.inj (hr.symm.trans hr'))
    simp at hnone
  · obtain ⟨hen', -⟩ := Prod.mk.inj (Option.some.inj (hr.symm.trans hr'))
    obtain rfl := GetFree.got.inj hen'
    exact h.branch freelist e hen

/-- What `get_loaded` gets was loaded. -/
theorem getLoaded_got (h : Represents s L) {identify : ε → Bool}
    (hr : s.getLoaded identify = some (.got e, t)) :
    (s.heap e).currentBranch = loadedlist := by
  rcases getLoaded_cases h identify with ⟨r, hr', hnone⟩ | ⟨en, hr', -⟩ |
    ⟨en, t', hr', hen, -⟩
  · obtain ⟨rfl, -⟩ := Prod.mk.inj (Option.some.inj (hr.symm.trans hr'))
    simp at hnone
  · cases (Prod.mk.inj (Option.some.inj (hr.symm.trans hr'))).1
  · obtain ⟨hen', -⟩ := Prod.mk.inj (Option.some.inj (hr.symm.trans hr'))
    obtain rfl := Request.got.inj hen'
    exact h.branch loadedlist e hen

/-- What `get_loaded` queues for is identified. -/
theorem getLoaded_queue (h : Represents s L) {identify : ε → Bool}
    (hr : s.getLoaded identify = some (.queue e, t)) : identify (s.heap e).entity := by
  obtain ⟨r, hfrom, hmem⟩ := getFromAll_spec h identify
  unfold getLoaded at hr
  rw [hfrom] at hr
  match r, hmem with
  | none, _ => simp at hr
  | some (en, freelist), _ => simp at hr
  | some (en, busylist), hmem =>
      obtain ⟨rfl, -⟩ : en = e ∧ s = t := by simpa using hr
      exact (hmem _ _ rfl).2
  | some (en, loadedlist), _ =>
      rcases hmove : s.mutexFreeChangeBranch busylist en with - | u <;> simp [hmove] at hr

/-- What `block_until_free` queues for is identified. -/
theorem blockOnBusy_queue (h : Represents s L) {identify : ε → Bool}
    (hr : s.blockOnBusy identify = some (.queue e, t)) : identify (s.heap e).entity := by
  unfold blockOnBusy at hr
  rw [h.loopAndCheck identify busylist] at hr
  cases hfind : (L busylist).find? (fun e => identify (s.heap e).entity) with
  | none => simp [hfind] at hr
  | some en =>
      obtain ⟨rfl, -⟩ : en = e ∧ s = t := by simpa [hfind] using hr
      simpa using List.find?_some hfind

/-- When it finds nothing, no busy entity is identified. -/
theorem blockOnBusy_null (h : Represents s L) {identify : ε → Bool}
    (hr : s.blockOnBusy identify = some (.null, t)) (he : e ∈ s.live)
    (hbusy : (s.heap e).currentBranch = busylist) : identify (s.heap e).entity = false := by
  unfold blockOnBusy at hr
  rw [h.loopAndCheck identify busylist] at hr
  have hmem := h.mem_branch he
  rw [hbusy] at hmem
  cases hfind : (L busylist).find? (fun e => identify (s.heap e).entity) with
  | none => simpa using List.find?_eq_none.mp hfind e hmem
  | some en => simp [hfind] at hr

/-! ## The operations that give an entity back -/

theorem takeTicket_represents (h : Represents s L) (e : ℕ) :
    Represents (s.takeTicket e) L := by
  refine h.modify _ ?_
  intro le
  exact ⟨rfl, rfl, rfl⟩

theorem callNext_represents (h : Represents s L) (e : ℕ) :
    Represents (s.callNext e) L := by
  refine h.modify _ ?_
  intro le
  exact ⟨rfl, rfl, rfl⟩

theorem callback_represents (h : Represents s L) (f : ε → ε) (e : ℕ) :
    Represents (s.callback f e) L := by
  refine h.modify _ ?_
  intro le
  exact ⟨rfl, rfl, rfl⟩

/-- `set_free` under the branch lock passes the entity on when the counters
differ and parks it on the free list when they agree. -/
theorem setFreeLocked_cases (h : Represents s L) (he : e ∈ s.live) (release : ε → ε) :
    ((s.heap e).waitersBottom ≠ (s.heap e).waitersHead ∧
      s.setFreeLocked release e = some (.passOn, s.callback release e)) ∨
    (∃ t, (s.heap e).waitersBottom = (s.heap e).waitersHead ∧
      s.setFreeLocked release e = some (.parked, t) ∧
      (s.callback release e).mutexFreeChangeBranch freelist e = some t) := by
  have hbottom : ((s.callback release e).heap e).waitersBottom = (s.heap e).waitersBottom := by
    simp [callback, Lists.modify]
  have hhead : ((s.callback release e).heap e).waitersHead = (s.heap e).waitersHead := by
    simp [callback, Lists.modify]
  unfold setFreeLocked
  simp only [hbottom, hhead]
  by_cases hwait : (s.heap e).waitersBottom = (s.heap e).waitersHead
  · obtain ⟨t, ht, -⟩ := (callback_represents h release e).mutexFreeChangeBranch he freelist
    exact .inr ⟨t, hwait, by simp [hwait, ht], ht⟩
  · exact .inl ⟨hwait, by simp [hwait]⟩

/-- `set_loaded` likewise, but calls the next ticket in the same step. -/
theorem setLoaded_cases (h : Represents s L) (he : e ∈ s.live) :
    ((s.heap e).waitersHead ≠ (s.heap e).waitersBottom ∧
      s.setLoaded e = some (.passOn, s.callNext e)) ∨
    (∃ t, (s.heap e).waitersHead = (s.heap e).waitersBottom ∧
      s.setLoaded e = some (.parked, t) ∧
      s.mutexFreeChangeBranch loadedlist e = some t) := by
  unfold setLoaded
  by_cases hwait : (s.heap e).waitersHead = (s.heap e).waitersBottom
  · obtain ⟨t, ht, -⟩ := h.mutexFreeChangeBranch he loadedlist
    exact .inr ⟨t, hwait, by simp [hwait, ht], ht⟩
  · exact .inl ⟨hwait, by simp [hwait]⟩

/-- `t` is `s` with `e` moved to the list `k`. -/
structure Moved (s t : EntityListBranch ε) (k : BranchList) (e : ℕ) : Prop where
  live : t.live = s.live
  represents : ∃ L, Represents t L
  branch : ∀ x, (t.heap x).currentBranch = if x = e then k else (s.heap x).currentBranch
  head : ∀ x, (t.heap x).waitersHead = (s.heap x).waitersHead
  bottom : ∀ x, (t.heap x).waitersBottom = (s.heap x).waitersBottom

/-- `mutex_free_change_branch`, without the order of the lists. -/
theorem moved_of_move (h : Represents s L) (he : e ∈ s.live) {k : BranchList}
    (hmove : s.mutexFreeChangeBranch k e = some t) : Moved s t k e := by
  obtain ⟨t', ht', hrep, hdata⟩ := h.mutexFreeChangeBranch he k
  obtain rfl : t = t' := Option.some.inj (hmove.symm.trans ht')
  refine ⟨hdata.live, ⟨_, hrep⟩, fun x => ?_, fun x => ?_, fun x => ?_⟩
  · rw [hdata.branch x]
    by_cases hx : x = e
    · subst hx; simp [Lists.modify]
    · simp [Lists.modify, hx]
  · rw [hdata.waitersHead x]
    by_cases hx : x = e
    · subst hx; simp [Lists.modify]
    · simp [Lists.modify, hx]
  · rw [hdata.waitersBottom x]
    by_cases hx : x = e
    · subst hx; simp [Lists.modify]
    · simp [Lists.modify, hx]

/-- Nor does it change what the entities hold. -/
theorem entity_of_move (h : Represents s L) (he : e ∈ s.live) {k : BranchList}
    (hmove : s.mutexFreeChangeBranch k e = some t) (x : ℕ) :
    (t.heap x).entity = (s.heap x).entity := by
  obtain ⟨t', ht', -, hdata⟩ := h.mutexFreeChangeBranch he k
  obtain rfl : t = t' := Option.some.inj (hmove.symm.trans ht')
  rw [hdata.entity x]
  by_cases hx : x = e
  · subst hx; simp [Lists.modify]
  · simp [Lists.modify, hx]

/-- A callback changes what its entity holds. -/
theorem callback_entity (f : ε → ε) (e x : ℕ) :
    ((callback f e s).heap x).entity = if x = e then f (s.heap x).entity
      else (s.heap x).entity := by
  by_cases hx : x = e
  · subst hx; simp [callback, Lists.modify]
  · simp [callback, Lists.modify, hx]

theorem takeTicket_entity (e x : ℕ) :
    ((s.takeTicket e).heap x).entity = (s.heap x).entity := by
  by_cases hx : x = e
  · subst hx; simp [takeTicket, Lists.modify]
  · simp [takeTicket, Lists.modify, hx]

theorem callNext_entity (e x : ℕ) :
    ((s.callNext e).heap x).entity = (s.heap x).entity := by
  by_cases hx : x = e
  · subst hx; simp [callNext, Lists.modify]
  · simp [callNext, Lists.modify, hx]

/-- A callback only touches the payload. -/
theorem callback_counters (f : ε → ε) (e x : ℕ) :
    ((callback f e s).heap x).currentBranch = (s.heap x).currentBranch ∧
      ((callback f e s).heap x).waitersHead = (s.heap x).waitersHead ∧
      ((callback f e s).heap x).waitersBottom = (s.heap x).waitersBottom := by
  by_cases hx : x = e
  · subst hx; simp [callback, Lists.modify]
  · simp [callback, Lists.modify, Function.update_of_ne hx]

/-- A callback after a move does not disturb it. -/
theorem Moved.callback_after {k : BranchList} (h : Moved s t k e) (f : ε → ε) :
    Moved s (callback f e t) k e := by
  obtain ⟨L, hrep⟩ := h.represents
  refine ⟨h.live, ⟨L, callback_represents hrep f e⟩, fun x => ?_, fun x => ?_, fun x => ?_⟩
  · rw [(callback_counters f e x).1, h.branch]
  · rw [(callback_counters f e x).2.1, h.head]
  · rw [(callback_counters f e x).2.2, h.bottom]

/-- Nor does one before it. -/
theorem Moved.callback_before {k : BranchList} {f : ε → ε}
    (h : Moved (callback f e s) t k e) : Moved s t k e := by
  refine ⟨h.live, h.represents, fun x => ?_, fun x => ?_, fun x => ?_⟩
  · rw [h.branch, (callback_counters f e x).1]
  · rw [h.head, (callback_counters f e x).2.1]
  · rw [h.bottom, (callback_counters f e x).2.2]

/-- The rest of the body of the first loop of `block_until_free`. -/
theorem blockRelease_moved (h : Represents s L) (he : e ∈ s.live) (release : ε → ε) :
    ∃ t, s.blockRelease release e = some t ∧ Moved s t freelist e := by
  obtain ⟨t, ht, -⟩ := h.mutexFreeChangeBranch he freelist
  exact ⟨callback release e t, by simp [blockRelease, ht],
    (moved_of_move h he ht).callback_after release⟩

/-- `t` is `s` with some loaded entities moved to the free list. -/
structure Drained (s t : EntityListBranch ε) : Prop where
  live : t.live = s.live
  represents : ∃ L, Represents t L
  branch : ∀ x, (t.heap x).currentBranch = (s.heap x).currentBranch ∨
    ((s.heap x).currentBranch = loadedlist ∧ (t.heap x).currentBranch = freelist)
  head : ∀ x, (t.heap x).waitersHead = (s.heap x).waitersHead
  bottom : ∀ x, (t.heap x).waitersBottom = (s.heap x).waitersBottom

/-- Moving one more loaded entity. -/
theorem Moved.drained {u : EntityListBranch ε} (h : Moved s t freelist e)
    (he : (s.heap e).currentBranch = loadedlist) (hd : Drained t u) : Drained s u := by
  refine ⟨hd.live.trans h.live, hd.represents, fun x => ?_,
    fun x => (hd.head x).trans (h.head x), fun x => (hd.bottom x).trans (h.bottom x)⟩
  have hx := h.branch x
  rcases hd.branch x with hsame | ⟨hloaded, hfree⟩
  · rw [hsame, hx]
    by_cases hxe : x = e
    · subst hxe; simp [he]
    · simp [hxe]
  · by_cases hxe : x = e
    · subst hxe; simp [hloaded] at hx
    · exact .inr ⟨by rw [hloaded] at hx; simpa [hxe] using hx.symm, hfree⟩

/-- The loaded entities. -/
def loaded (s : EntityListBranch ε) : Finset ℕ :=
  s.live.filter fun x => (s.heap x).currentBranch = loadedlist

/-- Moving a loaded entity to the free list leaves one loaded entity less. -/
theorem Moved.loaded_card (h : Moved s t freelist e) (he : e ∈ loaded s) :
    (loaded t).card + 1 = (loaded s).card := by
  have herase : loaded t = (loaded s).erase e := by
    ext x
    have hx := h.branch x
    by_cases hxe : x = e
    · subst hxe; simp [loaded, hx]
    · simp [loaded, hx, hxe, h.live]
  rw [herase]
  exact Finset.card_erase_add_one he

/-- The second loop of `block_until_free` ends: every pass leaves one loaded
entity less. -/
theorem blockReleaseLoaded_drained (identify : ε → Bool) (release : ε → ε) (fuel : ℕ) :
    ∀ {s : EntityListBranch ε} {L : BranchList → List ℕ}, Represents s L →
      (loaded s).card < fuel →
      ∃ t, s.blockReleaseLoaded identify release fuel = some t ∧ Drained s t := by
  induction fuel with
  | zero => intro s L _ hfuel; omega
  | succ n ih =>
      intro s L h hfuel
      unfold blockReleaseLoaded
      rw [h.loopAndCheck identify loadedlist]
      cases hfind : (L loadedlist).find? (fun e => identify (s.heap e).entity) with
      | none =>
          exact ⟨s, rfl, rfl, ⟨L, h⟩, fun _ => .inl rfl, fun _ => rfl, fun _ => rfl⟩
      | some en =>
          have hen := List.mem_of_find?_eq_some hfind
          have hlive := h.mem_live hen
          have hloaded := h.branch loadedlist en hen
          obtain ⟨t, ht, hmoved⟩ := blockRelease_moved h hlive release
          obtain ⟨L', h'⟩ := hmoved.represents
          have hcard := hmoved.loaded_card (by simp [loaded, hlive, hloaded])
          obtain ⟨u, hu, hdrained⟩ := ih h' (by omega)
          refine ⟨u, ?_, hmoved.drained hloaded hdrained⟩
          simp [ht, hu]

/-- What the second loop of `block_until_free` does to the entity `x`. -/
def DrainedAt (identify : ε → Bool) (release : ε → ε) (s t : EntityListBranch ε) (x : ℕ) :
    Prop :=
  if x ∈ s.live ∧ (s.heap x).currentBranch = loadedlist ∧ identify (s.heap x).entity then
    (t.heap x).currentBranch = freelist ∧ (t.heap x).entity = release (s.heap x).entity
  else (t.heap x).currentBranch = (s.heap x).currentBranch ∧
    (t.heap x).entity = (s.heap x).entity

/-- **The second loop of `block_until_free` puts the loaded entities of the
user on the free list and releases them**, and no others. -/
theorem blockReleaseLoaded_exact (identify : ε → Bool) (release : ε → ε) (fuel : ℕ) :
    ∀ {s t : EntityListBranch ε} {L : BranchList → List ℕ}, Represents s L →
      s.blockReleaseLoaded identify release fuel = some t →
      ∀ x, DrainedAt identify release s t x := by
  induction fuel with
  | zero => intro s t L _ ht; cases ht
  | succ n ih =>
      intro s t L h ht x
      unfold blockReleaseLoaded at ht
      rw [h.loopAndCheck identify loadedlist] at ht
      cases hfind : (L loadedlist).find? (fun e => identify (s.heap e).entity) with
      | none =>
          simp only [hfind, Option.bind_eq_bind, Option.bind_some, Option.some.injEq] at ht
          subst ht
          have hnone : ¬ (x ∈ s.live ∧ (s.heap x).currentBranch = loadedlist ∧
              identify (s.heap x).entity) := by
            rintro ⟨hx, hlist, hid⟩
            have hmem := h.mem_branch hx
            rw [hlist] at hmem
            exact List.find?_eq_none.mp hfind x hmem hid
          rw [DrainedAt, if_neg hnone]
          exact ⟨rfl, rfl⟩
      | some en =>
          have hen := List.mem_of_find?_eq_some hfind
          have hid : identify (s.heap en).entity := by simpa using List.find?_some hfind
          have hlive := h.mem_live hen
          have hloaded := h.branch loadedlist en hen
          obtain ⟨u, hu, -⟩ := h.mutexFreeChangeBranch hlive freelist
          have hrelease : s.blockRelease release en = some (callback release en u) := by
            simp [blockRelease, hu]
          have hmoved := (moved_of_move h hlive hu).callback_after release
          obtain ⟨L', h'⟩ := hmoved.represents
          simp only [hfind, Option.bind_eq_bind, Option.bind_some, hrelease] at ht
          have hrest := ih h' ht x
          have hentity : ((callback release en u).heap x).entity =
              if x = en then release (s.heap x).entity else (s.heap x).entity := by
            rw [callback_entity, entity_of_move h hlive hu]
          unfold DrainedAt at hrest ⊢
          rw [hmoved.live, hmoved.branch x, hentity] at hrest
          by_cases hxe : x = en
          · subst hxe
            rw [if_pos ⟨hlive, hloaded, hid⟩]
            simpa using hrest
          · simpa [hxe] using hrest

/-! ## Sequences of operations -/

/-- What can happen to a branch: each constructor is one region of the code
that runs under the lock of the branch, or under the wait lock of `en`. -/
inductive Op (ε : Type) where
  | addToEntlist (en : ℕ) (le : ListedEntity BranchList ε)
  | getFree (check : Option (ε → Bool))
  | getSpecific (identify : ε → Bool)
  | getLoaded (identify : ε → Bool)
  | blockOnBusy (identify : ε → Bool)
  | blockReleaseLoaded (identify : ε → Bool) (release : ε → ε)
  | setFreeLocked (release : ε → ε) (en : ℕ)
  | setLoaded (en : ℕ)
  | setBusy (en : ℕ)
  | blockRelease (release : ε → ε) (en : ℕ)
  | takeTicket (en : ℕ)
  | callNext (en : ℕ)
  | callback (f : ε → ε) (en : ℕ)
  | removeFromBranch (en : ℕ)

/-- The branch after an operation; `none` is a crash or an endless walk. -/
def exec (s : EntityListBranch ε) : Op ε → Option (EntityListBranch ε)
  | .addToEntlist en le => s.addToEntlist en le
  | .getFree check => (s.getFree check).map Prod.snd
  | .getSpecific identify => (s.getSpecific identify).map Prod.snd
  | .getLoaded identify => (s.getLoaded identify).map Prod.snd
  | .blockOnBusy identify => (s.blockOnBusy identify).map Prod.snd
  | .blockReleaseLoaded identify release =>
      s.blockReleaseLoaded identify release (s.live.card + 1)
  | .setFreeLocked release en => (s.setFreeLocked release en).map Prod.snd
  | .setLoaded en => (s.setLoaded en).map Prod.snd
  | .setBusy en => s.setBusy en
  | .blockRelease release en => s.blockRelease release en
  | .takeTicket en => some (s.takeTicket en)
  | .callNext en => some (s.callNext en)
  | .callback f en => some (s.callback f en)
  | .removeFromBranch en => some (s.removeFromBranch en)

/-- The entity an operation is handed by its caller. -/
def Op.argument : Op ε → Option ℕ
  | .setFreeLocked _ en | .setLoaded en | .setBusy en | .blockRelease _ en
  | .takeTicket en | .callNext en | .callback _ en | .removeFromBranch en => some en
  | _ => none

/-- The entities that were added and not removed, after one more operation. -/
def Op.members (A : Finset ℕ) : Op ε → Finset ℕ
  | .addToEntlist en _ => insert en A
  | .removeFromBranch en => A.erase en
  | _ => A

/-- Callers add entities they just allocated and hand over entities they have. -/
def Op.Callable (A : Finset ℕ) : Op ε → Prop
  | .addToEntlist en _ => en ∉ A
  | op => ∀ en, op.argument = some en → en ∈ A

/-- Every operation of the sequence is called with an entity its caller may
have at that point. -/
def CallableAll : Finset ℕ → List (Op ε) → Prop
  | _, [] => True
  | A, op :: ops => op.Callable A ∧ CallableAll (op.members A) ops

/-- A sequence of operations. -/
def execAll (s : EntityListBranch ε) : List (Op ε) → Option (EntityListBranch ε)
  | [] => some s
  | op :: ops => (s.exec op).bind fun t => execAll t ops

/-- **One operation.**  It runs to its end, keeps the branch represented, and
changes the set of entities as `Op.members` says. -/
theorem exec_represents (h : Represents s L) (op : Op ε) (hcall : op.Callable s.live) :
    ∃ t, s.exec op = some t ∧ t.live = op.members s.live ∧ ∃ L', Represents t L' := by
  cases op with
  | addToEntlist en le =>
      obtain ⟨t, ht, hrep, hlive⟩ := addToEntlist_spec h hcall le
      exact ⟨t, ht, hlive, _, hrep⟩
  | getFree check =>
      rcases getFree_cases h check with ⟨r, hr, -⟩ | ⟨en, t, hr, hen, hmove⟩
      · exact ⟨s, by simp [exec, hr], rfl, L, h⟩
      · obtain ⟨hlive, hrep, -⟩ := moved_of_move h (h.mem_live hen) hmove
        exact ⟨t, by simp [exec, hr], hlive, hrep⟩
  | getSpecific identify =>
      rcases getSpecific_cases h identify with hr | ⟨en, k, hr, -⟩ | ⟨en, t, hr, hen, hmove⟩
      · exact ⟨s, by simp [exec, hr], rfl, L, h⟩
      · exact ⟨s, by simp [exec, hr], rfl, L, h⟩
      · obtain ⟨hlive, hrep, -⟩ := moved_of_move h (h.mem_live hen) hmove
        exact ⟨t, by simp [exec, hr], hlive, hrep⟩
  | getLoaded identify =>
      rcases getLoaded_cases h identify with ⟨r, hr, -⟩ | ⟨en, hr, -⟩ | ⟨en, t, hr, hen, hmove⟩
      · exact ⟨s, by simp [exec, hr], rfl, L, h⟩
      · exact ⟨s, by simp [exec, hr], rfl, L, h⟩
      · obtain ⟨hlive, hrep, -⟩ := moved_of_move h (h.mem_live hen) hmove
        exact ⟨t, by simp [exec, hr], hlive, hrep⟩
  | blockOnBusy identify =>
      rcases blockOnBusy_cases h identify with hr | ⟨en, hr, -⟩
      · exact ⟨s, by simp [exec, hr], rfl, L, h⟩
      · exact ⟨s, by simp [exec, hr], rfl, L, h⟩
  | blockReleaseLoaded identify release =>
      have hfuel : (loaded s).card < s.live.card + 1 :=
        Nat.lt_succ_of_le (Finset.card_filter_le _ _)
      obtain ⟨t, ht, hdrained⟩ := blockReleaseLoaded_drained identify release _ h hfuel
      exact ⟨t, ht, hdrained.live, hdrained.represents⟩
  | setFreeLocked release en =>
      have hen : en ∈ s.live := hcall en rfl
      rcases setFreeLocked_cases h hen release with ⟨-, hr⟩ | ⟨t, -, hr, hmove⟩
      · exact ⟨callback release en s, by simp [exec, hr], rfl, L,
          callback_represents h release en⟩
      · obtain ⟨hlive, hrep, -⟩ := moved_of_move (callback_represents h release en) hen hmove
        exact ⟨t, by simp [exec, hr], hlive, hrep⟩
  | setLoaded en =>
      have hen : en ∈ s.live := hcall en rfl
      rcases setLoaded_cases h hen with ⟨-, hr⟩ | ⟨t, -, hr, hmove⟩
      · exact ⟨callNext en s, by simp [exec, hr], rfl, L, callNext_represents h en⟩
      · obtain ⟨hlive, hrep, -⟩ := moved_of_move h hen hmove
        exact ⟨t, by simp [exec, hr], hlive, hrep⟩
  | setBusy en =>
      have hen : en ∈ s.live := hcall en rfl
      obtain ⟨t, ht, -⟩ := h.mutexFreeChangeBranch hen busylist
      obtain ⟨hlive, hrep, -⟩ := moved_of_move h hen ht
      exact ⟨t, ht, hlive, hrep⟩
  | blockRelease release en =>
      obtain ⟨t, ht, hmoved⟩ := blockRelease_moved h (hcall en rfl) release
      exact ⟨t, ht, hmoved.live, hmoved.represents⟩
  | takeTicket en => exact ⟨_, rfl, rfl, L, takeTicket_represents h en⟩
  | callNext en => exact ⟨_, rfl, rfl, L, callNext_represents h en⟩
  | callback f en => exact ⟨_, rfl, rfl, L, callback_represents h f en⟩
  | removeFromBranch en =>
      obtain ⟨hrep, hlive⟩ := h.removeFromBranch (hcall en rfl)
      exact ⟨_, rfl, hlive, _, hrep⟩

/-- **Any sequence of operations**, by induction on it. -/
theorem execAll_represents (ops : List (Op ε)) :
    ∀ {s : EntityListBranch ε} {L : BranchList → List ℕ}, Represents s L →
      CallableAll s.live ops →
      ∃ t, s.execAll ops = some t ∧ t.live = ops.foldl Op.members s.live ∧
        ∃ L', Represents t L' := by
  induction ops with
  | nil => intro s L h _; exact ⟨s, rfl, rfl, L, h⟩
  | cons op ops ih =>
      intro s L h hcall
      obtain ⟨t, ht, hlive, L', h'⟩ := exec_represents h op hcall.1
      obtain ⟨u, hu, hmembers, hrep⟩ := ih h' (by rw [hlive]; exact hcall.2)
      refine ⟨u, by simp [execAll, ht, hu], ?_, hrep⟩
      rw [hmembers, hlive, List.foldl_cons]

/-! ## Well-formed branches -/

/-- Follow `child` from `h` and collect the entities met; `none` when the end
is not reached within `fuel` of them. -/
def walk (s : EntityListBranch ε) : ℕ → Option ℕ → Option (List ℕ)
  | _, none => some []
  | 0, some _ => none
  | fuel + 1, some e => (walk s fuel (s.heap e).child).map (e :: ·)

/-- What the three lists of a branch are supposed to be. -/
structure ListsWellFormed (s : EntityListBranch ε) (L : BranchList → List ℕ) : Prop where
  /-- Following `child` from a head visits exactly its members and ends in `NULL`. -/
  walk : ∀ k, s.walk s.live.card (s.root k) = some (L k)
  /-- No member is met twice. -/
  once : ∀ k, (L k).Nodup
  /-- Every entity that was added and not removed is on exactly one list. -/
  exactlyOne : ∀ e ∈ s.live, ∃! k, e ∈ L k
  /-- Nothing else is on a list. -/
  allocated : ∀ k, ∀ e ∈ L k, e ∈ s.live
  /-- `child` stays in the list and `father` leads back. -/
  fatherOfChild : ∀ k, ∀ e ∈ L k, ∀ f, (s.heap e).child = some f →
    f ∈ L k ∧ (s.heap f).father = some e
  /-- `father` stays in the list and `child` leads back. -/
  childOfFather : ∀ k, ∀ e ∈ L k, ∀ f, (s.heap e).father = some f →
    f ∈ L k ∧ (s.heap f).child = some e
  /-- The head, and only the head, has no father. -/
  fatherNull : ∀ k, ∀ e ∈ L k, (s.heap e).father = none ↔ s.root k = some e
  /-- `current_branch` is the address of the head the entity is reachable from. -/
  branch : ∀ k, ∀ e ∈ L k, (s.heap e).currentBranch = k

/-- **The representation invariant of a branch.** -/
def WellFormed (s : EntityListBranch ε) : Prop := ∃ L, ListsWellFormed s L

/-- A walk along a segment collects it. -/
theorem walk_seg (l : List ℕ) : ∀ (fuel : ℕ) (p h : Option ℕ), l.length ≤ fuel →
    Seg s.children s.fathers p h l none → s.walk fuel h = some l := by
  induction l with
  | nil =>
      intro fuel p h _ hseg
      obtain rfl : h = none := hseg
      cases fuel <;> rfl
  | cons a l ih =>
      intro fuel p h hfuel hseg
      obtain ⟨n, rfl⟩ : ∃ n, fuel = n + 1 := ⟨fuel - 1, by simp at hfuel; omega⟩
      obtain ⟨rfl, -, hrest⟩ := hseg
      have hnext := ih n (some a) (s.heap a).child (by simpa using hfuel) hrest
      simp [walk, hnext]

/-- A branch that represents its lists is well formed. -/
theorem wellFormed_of_represents (h : Represents s L) : ListsWellFormed s L where
  walk k := walk_seg (L k) _ none _ (h.length_le k) (h.seg k)
  once := h.nodup
  exactlyOne e he := by
    obtain ⟨k, hk⟩ := (h.live e).mp he
    exact ⟨k, hk, fun k' hk' => h.toChains.eq_of_mem hk' hk⟩
  allocated k e he := h.mem_live he
  fatherOfChild k e he f hf := (h.seg k).father_of_child he hf
  childOfFather k e he f hf := (h.seg k).child_of_father he hf
  fatherNull k e he := by
    constructor
    · exact (h.seg k).entry_of_father_none he
    · intro hroot
      have hseg := h.seg k
      cases hl : L k with
      | nil => simp [hl] at he
      | cons a l =>
          rw [hl] at hseg
          obtain rfl : e = a := Option.some.inj (hroot.symm.trans hseg.1)
          exact hseg.2.1
  branch := h.branch

/-- **A branch stays well formed.**  After any sequence of operations on a
branch that was empty, the branch is well formed, its entities are those that
were added and not removed, and every operation ran to its end. -/
theorem wellFormed_of_run (ops : List (Op ε)) (s : EntityListBranch ε) (hempty : IsEmpty s)
    (hcall : CallableAll ∅ ops) :
    ∃ t, s.execAll ops = some t ∧ t.live = ops.foldl Op.members ∅ ∧ WellFormed t := by
  obtain ⟨t, ht, hlive, L, hrep⟩ :=
    execAll_represents ops hempty.represents (by rw [hempty.live]; exact hcall)
  rw [hempty.live] at hlive
  exact ⟨t, ht, hlive, L, wellFormed_of_represents hrep⟩

/-- Two buffers are added, one of them is taken, loaded and put back. -/
theorem wellFormed_of_run_twoBuffers :
    ∃ t, execAll (ε := Unit) ⟨fun _ => none, fun _ => ⟨none, none, freelist, 0, 0, ()⟩, ∅⟩
        [.addToEntlist 4 ⟨none, none, freelist, 0, 0, ()⟩,
          .addToEntlist 8 ⟨none, none, freelist, 0, 0, ()⟩,
          .getFree none, .setLoaded 4, .setFreeLocked id 4, .removeFromBranch 8] = some t ∧
      t.live = {4} ∧ WellFormed t :=
  wellFormed_of_run _ _ ⟨fun _ => rfl, rfl⟩ (by simp [CallableAll, Op.Callable,
    Op.members, Op.argument])

end EntityListBranch

end VlbiStreamer.ResourceTree
