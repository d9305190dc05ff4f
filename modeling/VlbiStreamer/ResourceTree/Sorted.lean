import VlbiStreamer.Library.StableInsertion
import VlbiStreamer.ResourceTree.Representation

/-!
# Insertion with a comparison

With a comparison, `add_to_next` puts an entity in front of the first one that it compares
before (`addToNext_insert`).  From an empty list the entities are thus sorted, with those that
compare equal in the order in which they were added: `addAll_sorted`.
-/

set_option linter.unusedSectionVars false

namespace VlbiStreamer.ResourceTree

open Library

variable {κ ε : Type} [DecidableEq κ]

namespace Lists

/-- `compare` puts `e` before `x`. -/
def Before (compare : ε → ε → Bool) (s : Lists κ ε) (e x : ℕ) : Prop :=
  compare (s.heap e).entity (s.heap x).entity = true

instance (compare : ε → ε → Bool) (s : Lists κ ε) : DecidableRel (s.Before compare) :=
  fun _ _ => inferInstanceAs (Decidable (_ = true))

/-- `add_to_next(&root, e, compare)` for one entity after the other. -/
def addAll (compare : ε → ε → Bool) (k : κ) (es : List ℕ) (s : Lists κ ε) :
    Option (Lists κ ε) :=
  es.foldlM (fun s e => s.addToNext k e (some compare)) s

/-- The list that `l` is, at the head `k`. -/
structure Holds (s : Lists κ ε) (k : κ) (l : List ℕ) : Prop where
  seg : Seg s.children s.fathers none (s.root k) l none
  nodup : l.Nodup
  branch : ∀ e ∈ l, (s.heap e).currentBranch = k

variable {compare : ε → ε → Bool} {s t : Lists κ ε} {k : κ} {e old new : ℕ} {l : List ℕ}

/-- Comparing is a matter of the entities. -/
theorem before_congr (h : ∀ x, (t.heap x).entity = (s.heap x).entity) :
    t.Before compare = s.Before compare := by
  funext x y
  unfold Before
  rw [h x, h y]

/-! ## One insertion -/

/-- The pointers behind `add_before_ent`. -/
theorem addBeforeEnt_pointers (hne : old ≠ new) :
    (s.addBeforeEnt new old).children = (match s.fathers old with
      | none => Function.update s.children new (some old)
      | some f => Function.update (Function.update s.children new (some old)) f (some new)) ∧
    (s.addBeforeEnt new old).fathers =
      Function.update (Function.update s.fathers new (s.fathers old)) old (some new) ∧
    (s.addBeforeEnt new old).root = s.root ∧ SameData s (s.addBeforeEnt new old) := by
  have hfirst : ((s.setChild new (some old)).heap old).father = s.fathers old :=
    congrFun (fathers_setChild s new (some old)) old
  have hsecond : (((s.setChild new (some old)).setFather new (s.fathers old)).heap old).father =
      s.fathers old := by
    have hfathers := fathers_setFather (s.setChild new (some old)) new (s.fathers old)
    rw [fathers_setChild] at hfathers
    exact (congrFun hfathers old).trans (Function.update_of_ne hne _ _)
  unfold addBeforeEnt
  dsimp only
  rw [hfirst, hsecond]
  cases hfather : s.fathers old with
  | none =>
      dsimp only
      refine ⟨?_, ?_, rfl, ?_⟩
      · rw [children_setFather, children_setFather, children_setChild]
      · rw [fathers_setFather, fathers_setFather, fathers_setChild]
      · exact ((SameData.setChild s new _).trans (SameData.setFather _ new _)).trans
          (SameData.setFather _ old _)
  | some f =>
      dsimp only
      refine ⟨?_, ?_, rfl, ?_⟩
      · rw [children_setFather, children_setChild, children_setFather, children_setChild]
      · rw [fathers_setFather, fathers_setChild, fathers_setFather, fathers_setChild]
      · exact (((SameData.setChild s new _).trans (SameData.setFather _ new _)).trans
          (SameData.setChild _ f _)).trans (SameData.setFather _ old _)

/-- What the loop makes of a list. -/
structure Inserted (s : Lists κ ε) (k : κ) (l : List ℕ) (t : Lists κ ε) : Prop where
  seg : Seg t.children t.fathers none (t.root k) l none
  same : SameData s t

variable {cur : ℕ} {pre post : List ℕ} {cell : Cell κ} {fuel : ℕ}

/-- The loop at the entity `cur`, which is behind `e`: `e` is a new head or comes between. -/
theorem insert_before (hseg : Seg s.children s.fathers none (s.root k) (pre ++ cur :: post) none)
    (hnodup : (pre ++ cur :: post).Nodup) (he : e ∉ pre ++ cur :: post)
    (hcell : s.fathers cur = none → cell = .root k) :
    Inserted s k (pre ++ e :: cur :: post)
      ((if (s.heap cur).father = none then s.write cell (some e) else s).addBeforeEnt e cur) := by
  have hne : cur ≠ e := by
    rintro rfl
    exact he (List.mem_append_right _ List.mem_cons_self)
  obtain ⟨hlast, -, -⟩ := hseg.at_node
  obtain ⟨hpre, hpost, hapart⟩ := List.nodup_append.mp hnodup
  obtain ⟨hcur, hpostnd⟩ := List.nodup_cons.mp hpost
  cases hfather : (s.heap cur).father with
  | none =>
      have hnil : pre = [] := eq_nil_of_lastOr (hlast.symm.trans hfather)
      subst hnil
      rw [if_pos rfl, hcell hfather]
      have hpointers := addBeforeEnt_pointers (s := s.write (.root k) (some e)) hne
      have hfathers : (s.write (.root k) (some e)).fathers cur = none := hfather
      rw [hfathers] at hpointers
      obtain ⟨hchildren, hfathers', hroot, hsame⟩ := hpointers
      refine ⟨?_, (SameData.setRoot s k (some e)).trans hsame⟩
      rw [hchildren, hfathers', hroot]
      have hentry : (s.write (.root k) (some e)).root k = some e := Function.update_self _ _ _
      rw [hentry]
      refine Seg.push_front hseg (fun y hy => ?_) (fun y hy => ?_) ?_ ?_ ?_
      · have hye : y ≠ e := by
          rintro rfl
          exact he hy
        exact Function.update_of_ne hye _ _
      · have hye : y ≠ e := by
          rintro rfl
          exact he (List.mem_cons_of_mem _ hy)
        have hycur : y ≠ cur := by
          rintro rfl
          exact hcur hy
        rw [Function.update_of_ne hycur, Function.update_of_ne hye]
        rfl
      · exact Function.update_self _ _ _
      · exact Function.update_self _ _ _
      · rw [Function.update_of_ne hne.symm, Function.update_self]
  | some f =>
      obtain ⟨before, hbefore⟩ := exists_of_lastOr (hlast.symm.trans hfather)
      subst hbefore
      rw [if_neg (Option.some_ne_none f)]
      have hpointers := addBeforeEnt_pointers (s := s) hne
      have hfathers : s.fathers cur = some f := hfather
      rw [hfathers] at hpointers
      obtain ⟨hchildren, hfathers', hroot, hsame⟩ := hpointers
      refine ⟨?_, hsame⟩
      rw [hchildren, hfathers', hroot]
      have hef : e ≠ f := by
        rintro rfl
        exact he (by simp)
      have hcurf : cur ≠ f := by
        rintro rfl
        exact hapart cur (by simp) cur (by simp) rfl
      have hfbefore : f ∉ before := by
        intro hf
        exact (List.nodup_append.mp hpre).2.2 f hf f (by simp) rfl
      have hfpost : f ∉ post := fun hf => hapart f (by simp) f (by simp [hf]) rfl
      rw [List.append_assoc] at hseg ⊢
      refine Seg.insert_between hseg (fun y hy => ?_) (fun y hy => ?_) ?_ ?_ ?_ ?_
      · have hyf : y ≠ f := by
          rintro rfl
          simp [hfbefore, hcurf.symm, hfpost] at hy
        have hye : y ≠ e := by
          rintro rfl
          exact he (by simp at hy ⊢; tauto)
        dsimp only
        rw [Function.update_of_ne hyf, Function.update_of_ne hye]
      · have hycur : y ≠ cur := by
          rintro rfl
          rcases List.mem_append.mp hy with hy | hy
          · exact hapart y (by simp [hy]) y (by simp) rfl
          · rcases List.mem_cons.mp hy with rfl | hy
            · exact hcurf rfl
            · exact hcur hy
        have hye : y ≠ e := by
          rintro rfl
          exact he (by simp at hy ⊢; tauto)
        rw [Function.update_of_ne hycur, Function.update_of_ne hye]
      · exact Function.update_self _ _ _
      · dsimp only
        rw [Function.update_of_ne hef, Function.update_self]
      · rw [Function.update_of_ne hne.symm, Function.update_self]
      · exact Function.update_self _ _ _

/-- The loop at the last entity, which is not behind `e`. -/
theorem insert_last (hseg : Seg s.children s.fathers none (s.root k) (pre ++ [cur]) none)
    (hnodup : (pre ++ [cur]).Nodup) (he : e ∉ pre ++ [cur]) (hchild : s.children e = none) :
    Inserted s k (pre ++ [cur] ++ [e]) ((s.setFather e (some cur)).setChild cur (some e)) := by
  have hne : e ≠ cur := by
    rintro rfl
    exact he (by simp)
  refine ⟨?_, (SameData.setFather s e _).trans (SameData.setChild _ cur _)⟩
  rw [children_setChild, children_setFather, fathers_setChild, fathers_setFather, root_setChild,
    root_setFather]
  refine Seg.push_back hseg (fun y hy => ?_) (fun y hy => ?_) ?_ ?_ ?_
  · have hycur : y ≠ cur := by
      rintro rfl
      exact (List.nodup_append.mp hnodup).2.2 y hy y (by simp) rfl
    exact Function.update_of_ne hycur _ _
  · have hye : y ≠ e := by
      rintro rfl
      exact he hy
    exact Function.update_of_ne hye _ _
  · exact Function.update_self _ _ _
  · rw [Function.update_of_ne hne, hchild]
  · exact Function.update_self _ _ _

/-- **The loop of `add_to_next`** with a comparison inserts into the rest of the list. -/
theorem addToNextLoop_insert (compare : ε → ε → Bool) (hfuel : post.length < fuel)
    (hseg : Seg s.children s.fathers none (s.root k) (pre ++ cur :: post) none)
    (hnodup : (pre ++ cur :: post).Nodup) (he : e ∉ pre ++ cur :: post)
    (hchild : s.children e = none) (hread : s.read cell = some cur)
    (hcell : s.fathers cur = none → cell = .root k) :
    ∃ t, addToNextLoop (some compare) e fuel cell s = some t ∧
      Inserted s k (pre ++ (cur :: post).orderedInsert (s.Before compare) e) t := by
  induction post generalizing pre cur cell fuel with
  | nil =>
      obtain ⟨fuel, rfl⟩ : ∃ n, fuel = n + 1 := ⟨fuel - 1, by simp at hfuel; omega⟩
      obtain ⟨-, -, hend⟩ := hseg.at_node
      have hlast : (s.heap cur).child = none := hend
      rw [addToNextLoop, hread, List.orderedInsert_cons]
      dsimp only
      by_cases hbefore : s.Before compare e cur
      · rw [if_pos hbefore, Option.any_some, if_pos (show compare _ _ = true from hbefore)]
        exact ⟨_, rfl, insert_before hseg hnodup he hcell⟩
      · rw [if_neg hbefore, Option.any_some, if_neg (show ¬ compare _ _ = true from hbefore),
          hlast]
        refine ⟨_, rfl, ?_⟩
        have hinserted := insert_last hseg hnodup he hchild
        rw [List.append_assoc] at hinserted
        exact hinserted
  | cons next post ih =>
      obtain ⟨fuel, rfl⟩ : ∃ n, fuel = n + 1 := ⟨fuel - 1, by simp at hfuel; omega⟩
      obtain ⟨-, -, hnext, hback, -⟩ := hseg.at_node
      have hchildcur : (s.heap cur).child = some next := hnext
      rw [addToNextLoop, hread, List.orderedInsert_cons]
      dsimp only
      by_cases hbefore : s.Before compare e cur
      · rw [if_pos hbefore, Option.any_some, if_pos (show compare _ _ = true from hbefore)]
        exact ⟨_, rfl, insert_before hseg hnodup he hcell⟩
      · rw [if_neg hbefore, Option.any_some, if_neg (show ¬ compare _ _ = true from hbefore),
          hchildcur]
        have hsplit : pre ++ cur :: next :: post = (pre ++ [cur]) ++ next :: post := by simp
        rw [hsplit] at hseg hnodup he
        have hread' : s.read (.child cur) = some next := hchildcur
        have hmiddle : s.fathers next = none → Cell.child cur = .root k := by
          intro hnone
          rw [hback] at hnone
          cases hnone
        obtain ⟨t, hloop, ht⟩ := ih (by simpa using hfuel) hseg hnodup he hread' hmiddle
        refine ⟨t, hloop, ?_⟩
        rw [List.append_assoc] at ht
        exact ht

/-- The assignments with which `add_to_next` starts. -/
def detach (s : Lists κ ε) (e : ℕ) (k : κ) : Lists κ ε :=
  s.modify e fun le => { le with child := none, father := none, currentBranch := k }

theorem children_detach_self : (s.detach e k).children e = none := by
  simp [detach, children, modify]

theorem fathers_detach_self : (s.detach e k).fathers e = none := by
  simp [detach, fathers, modify]

theorem branch_detach_self : ((s.detach e k).heap e).currentBranch = k := by
  simp [detach, modify]

theorem heap_detach_of_ne {x : ℕ} (h : x ≠ e) : (s.detach e k).heap x = s.heap x :=
  Function.update_of_ne h _ _

theorem entity_detach (x : ℕ) : ((s.detach e k).heap x).entity = (s.heap x).entity := by
  by_cases hx : x = e
  · subst hx
    simp [detach, modify]
  · rw [heap_detach_of_ne hx]

theorem Holds.detach (h : Holds s k l) (he : e ∉ l) : Holds (s.detach e k) k l := by
  have hne : ∀ x ∈ l, x ≠ e := by
    rintro x hx rfl
    exact he hx
  refine ⟨h.seg.congr ?_ ?_, h.nodup, ?_⟩
  · intro x hx
    exact congrArg ListedEntity.child (heap_detach_of_ne (hne x hx))
  · intro x hx
    exact congrArg ListedEntity.father (heap_detach_of_ne (hne x hx))
  · intro x hx
    rw [heap_detach_of_ne (hne x hx)]
    exact h.branch x hx

/-- **`add_to_next` with a comparison** puts an entity in front of the first one that it
compares before. -/
theorem Holds.addToNext (compare : ε → ε → Bool) (h : Holds s k l) (he : e ∉ l)
    (hfuel : l.length ≤ s.live.card) :
    ∃ t, s.addToNext k e (some compare) = some t ∧
      Holds t k (l.orderedInsert (s.Before compare) e) ∧
        (∀ x, (t.heap x).entity = (s.heap x).entity) ∧ t.live = s.live := by
  have hdetached := h.detach (k := k) he
  have hbranches {t : Lists κ ε} (hsame : SameData (s.detach e k) t) :
      ∀ x ∈ l.orderedInsert (s.Before compare) e, (t.heap x).currentBranch = k := by
    intro x hx
    rw [hsame.branch]
    rcases (List.mem_orderedInsert _).mp hx with rfl | hx
    · exact branch_detach_self
    · exact hdetached.branch x hx
  have hnodup : (l.orderedInsert (s.Before compare) e).Nodup :=
    (List.perm_orderedInsert _ e l).nodup_iff.mpr (List.nodup_cons.mpr ⟨he, h.nodup⟩)
  have hseg := hdetached.seg
  cases l with
  | nil =>
      have hroot : (s.detach e k).root k = none := hseg
      have hadd : s.addToNext k e (some compare) =
          some ((s.detach e k).setRoot k (some e)) := by
        show (match (s.detach e k).root k with
          | none => _
          | some _ => _) = _
        rw [hroot]
        rfl
      refine ⟨_, hadd, ⟨?_, hnodup, hbranches (SameData.setRoot _ k _)⟩, entity_detach, rfl⟩
      exact ⟨Function.update_self _ _ _, fathers_detach_self, children_detach_self⟩
  | cons cur post =>
      have hroot : (s.detach e k).root k = some cur := hseg.1
      obtain ⟨t, hloop, ht⟩ :
          ∃ t, addToNextLoop (some compare) e s.live.card (.root k) (s.detach e k) = some t ∧
            Inserted (s.detach e k) k
              ([] ++ (cur :: post).orderedInsert ((s.detach e k).Before compare) e) t :=
        addToNextLoop_insert compare (Nat.lt_of_succ_le hfuel) hseg h.nodup he
          children_detach_self hroot fun _ => rfl
      have hadd : s.addToNext k e (some compare) = some t := by
        show (match (s.detach e k).root k with
          | none => _
          | some _ => addToNextLoop (some compare) e s.live.card (.root k) (s.detach e k)) = _
        rw [hroot]
        exact hloop
      simp only [before_congr entity_detach, List.nil_append] at ht
      refine ⟨t, hadd, ⟨ht.seg, hnodup, hbranches ht.same⟩, fun x => ?_, ht.same.live⟩
      rw [ht.same.entity, entity_detach]

/-! ## A sorted list -/

/-- The entities are inserted one after the other. -/
theorem Holds.addAll (compare : ε → ε → Bool) (h : Holds s k l) {es : List ℕ}
    (hnodup : (l ++ es).Nodup) (hlive : ∀ e ∈ l ++ es, e ∈ s.live) :
    ∃ t, s.addAll compare k es = some t ∧ Holds t k (insertAll (s.Before compare) l es) ∧
      ∀ x, (t.heap x).entity = (s.heap x).entity := by
  induction es generalizing s l with
  | nil => exact ⟨s, rfl, h, fun _ => rfl⟩
  | cons e es ih =>
      obtain ⟨hl, hes, hapart⟩ := List.nodup_append.mp hnodup
      have he : e ∉ l := fun hmem => hapart e hmem e List.mem_cons_self rfl
      have hfuel : l.length ≤ s.live.card := by
        rw [← List.toFinset_card_of_nodup hl]
        apply Finset.card_le_card
        intro x hx
        exact hlive x (List.mem_append_left _ (List.mem_toFinset.mp hx))
      obtain ⟨u, hadd, hu, hentity, hulive⟩ := h.addToNext compare he hfuel
      have hperm : (l.orderedInsert (s.Before compare) e ++ es).Perm (l ++ e :: es) :=
        ((List.perm_orderedInsert _ e l).append_right es).trans List.perm_middle.symm
      obtain ⟨t, hall, ht, hentity'⟩ := ih hu (hperm.nodup_iff.mpr hnodup) fun x hx => by
        rw [hulive]
        exact hlive x (hperm.mem_iff.mp hx)
      refine ⟨t, ?_, ?_, fun x => (hentity' x).trans (hentity x)⟩
      · rw [Lists.addAll, List.foldlM_cons, hadd]
        exact hall
      · simp only [before_congr hentity] at ht
        exact ht

instance [IsStrictWeakOrder ε fun a b => compare a b = true] :
    IsStrictWeakOrder ℕ (s.Before compare) :=
  inferInstanceAs (IsStrictWeakOrder ℕ (Function.onFun (fun a b => compare a b = true)
    fun e => (s.heap e).entity))

/-- **Insertions into an empty list sort the entities**: the list holds those that were added,
sorted, with those that compare equal in the order in which they were added. -/
theorem addAll_sorted (compare : ε → ε → Bool)
    [IsStrictWeakOrder ε fun a b => compare a b = true] (s : Lists κ ε) (k : κ) {es : List ℕ}
    (hempty : s.root k = none) (hnodup : es.Nodup) (hlive : ∀ e ∈ es, e ∈ s.live) :
    ∃ t l, s.addAll compare k es = some t ∧ Holds t k l ∧ l.Perm es ∧
      Ordered (s.Before compare) l ∧
      (∀ x, l.filter (Incomparable (s.Before compare) x ·) =
        es.filter (Incomparable (s.Before compare) x ·)) ∧
      ∀ x, (t.heap x).entity = (s.heap x).entity := by
  have hstart : Holds s k [] := ⟨hempty, List.nodup_nil, fun _ hx => absurd hx List.not_mem_nil⟩
  obtain ⟨t, hall, ht, hentity⟩ := hstart.addAll compare hnodup hlive
  have hnil : Ordered (s.Before compare) [] := List.Pairwise.nil
  exact ⟨t, _, hall, ht, perm_insertAll [] es, ordered_insertAll hnil es,
    fun x => filter_insertAll hnil x es, hentity⟩

/-- Entities with the `long`s 5, 7 and 5. -/
def threeLongs : Lists Unit ℤ where
  root _ := none
  heap e := ⟨none, none, (), 0, 0, if e = 1 then 7 else 5⟩
  live := {0, 1, 2}

/-- The larger one first. -/
def sillylompare (i1 i2 : ℤ) : Bool := decide (i1 > i2)

theorem threeLongs_sorted : ∃ t l, threeLongs.addAll sillylompare () [0, 1, 2] = some t ∧
    Holds t () l ∧ l.Perm [0, 1, 2] ∧ Ordered (threeLongs.Before sillylompare) l := by
  have hweak : IsStrictWeakOrder ℤ fun a b => sillylompare a b = true := by
    have hgt : (fun a b => sillylompare a b = true) = fun a b : ℤ => a > b := by
      funext a b
      exact propext decide_eq_true_iff
    rw [hgt]
    exact isStrictWeakOrder_of_isOrderConnected
  obtain ⟨t, l, hall, ht, hperm, hordered, -⟩ :=
    addAll_sorted sillylompare threeLongs () rfl
      (show [0, 1, 2].Nodup by decide) (by decide)
  exact ⟨t, l, hall, ht, hperm, hordered⟩

end Lists

end VlbiStreamer.ResourceTree
