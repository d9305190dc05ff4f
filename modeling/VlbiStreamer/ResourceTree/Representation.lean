import VlbiStreamer.Library.LinkedList
import VlbiStreamer.Library.Transition
import VlbiStreamer.ResourceTree.Branch

/-!
# What the three lists of a branch hold

The abstract state of a branch is one list of entities for each head.
`Represents s L` says that the heap `s` stores exactly the lists `L`: from
every head, `child` visits the entities of its list and ends in `NULL`,
`father` points the other way, every entity carries the address of its head,
and the entities on the lists are those that are allocated.

The operations of the branch are then list operations.  `add_to_next` appends
(`Chains.addToNext`), unlinking erases (`Chains.unlink`), so
`mutex_free_change_branch` is `moveTo` and `remove_from_branch` is `dropFrom`;
everything else only touches the data of an entity.  Each operation keeps
`Represents` for *some* lists, hence `WellFormed`, the invariant of a branch.
-/

set_option linter.unusedSectionVars false

namespace VlbiStreamer.ResourceTree

open Library (Seg System)

variable {κ ε : Type} [DecidableEq κ]

namespace Lists

/-- The `child` pointers. -/
def children (s : Lists κ ε) (e : ℕ) : Option ℕ := (s.heap e).child

/-- The `father` pointers. -/
def fathers (s : Lists κ ε) (e : ℕ) : Option ℕ := (s.heap e).father

/-! ### The pointers after one assignment -/

section Pointers

variable (s : Lists κ ε) (e : ℕ) (k : κ) (v : Option ℕ)

@[simp] theorem root_setChild : (s.setChild e v).root = s.root := rfl
@[simp] theorem root_setFather : (s.setFather e v).root = s.root := rfl
@[simp] theorem root_setRoot :
    (s.setRoot k v).root = Function.update s.root k v := rfl
@[simp] theorem children_setRoot : (s.setRoot k v).children = s.children := rfl
@[simp] theorem fathers_setRoot : (s.setRoot k v).fathers = s.fathers := rfl
@[simp] theorem heap_setRoot : (s.setRoot k v).heap = s.heap := rfl

@[simp] theorem children_setChild :
    (s.setChild e v).children = Function.update s.children e v := by
  funext x
  by_cases hx : x = e
  · subst hx; simp [children, setChild, modify]
  · simp [children, setChild, modify, Function.update_of_ne hx]

@[simp] theorem fathers_setChild : (s.setChild e v).fathers = s.fathers := by
  funext x
  by_cases hx : x = e
  · subst hx; simp [fathers, setChild, modify]
  · simp [fathers, setChild, modify, Function.update_of_ne hx]

@[simp] theorem fathers_setFather :
    (s.setFather e v).fathers = Function.update s.fathers e v := by
  funext x
  by_cases hx : x = e
  · subst hx; simp [fathers, setFather, modify]
  · simp [fathers, setFather, modify, Function.update_of_ne hx]

@[simp] theorem children_setFather : (s.setFather e v).children = s.children := by
  funext x
  by_cases hx : x = e
  · subst hx; simp [children, setFather, modify]
  · simp [children, setFather, modify, Function.update_of_ne hx]

@[simp] theorem root_setFatherIf (h : Option ℕ) :
    (s.setFatherIf h v).root = s.root := by
  cases h <;> rfl

@[simp] theorem children_setFatherIf (h : Option ℕ) :
    (s.setFatherIf h v).children = s.children := by
  cases h <;> simp [setFatherIf]

@[simp] theorem fathers_setFatherIf (h : Option ℕ) :
    (s.setFatherIf h v).fathers = Library.relink s.fathers h v := by
  cases h <;> simp [setFatherIf]

end Pointers

/-! ### Operations that only move pointers -/

/-- What a record holds besides its two links. -/
def data (s : Lists κ ε) (e : ℕ) : κ × ℕ × ℕ × ε :=
  ((s.heap e).currentBranch, (s.heap e).waitersHead, (s.heap e).waitersBottom,
    (s.heap e).entity)

/-- `t` differs from `s` in links and list heads only. -/
structure SameData (s t : Lists κ ε) : Prop where
  live : t.live = s.live
  data : ∀ e, t.data e = s.data e

namespace SameData

variable {s t u : Lists κ ε}

@[refl] theorem refl (s : Lists κ ε) : SameData s s := ⟨rfl, fun _ => rfl⟩

theorem trans (h₁ : SameData s t) (h₂ : SameData t u) : SameData s u :=
  ⟨h₂.live.trans h₁.live, fun e => (h₂.data e).trans (h₁.data e)⟩

theorem branch (h : SameData s t) (e : ℕ) :
    (t.heap e).currentBranch = (s.heap e).currentBranch :=
  congrArg Prod.fst (h.data e)

theorem waitersHead (h : SameData s t) (e : ℕ) :
    (t.heap e).waitersHead = (s.heap e).waitersHead :=
  congrArg (fun d => d.2.1) (h.data e)

theorem waitersBottom (h : SameData s t) (e : ℕ) :
    (t.heap e).waitersBottom = (s.heap e).waitersBottom :=
  congrArg (fun d => d.2.2.1) (h.data e)

theorem entity (h : SameData s t) (e : ℕ) :
    (t.heap e).entity = (s.heap e).entity :=
  congrArg (fun d => d.2.2.2) (h.data e)

theorem setRoot (s : Lists κ ε) (k : κ) (v : Option ℕ) :
    SameData s (s.setRoot k v) := ⟨rfl, fun _ => rfl⟩

theorem modify (s : Lists κ ε) (e : ℕ)
    (f : ListedEntity κ ε → ListedEntity κ ε)
    (hf : ∀ le, (f le).currentBranch = le.currentBranch ∧
      (f le).waitersHead = le.waitersHead ∧
      (f le).waitersBottom = le.waitersBottom ∧ (f le).entity = le.entity) :
    SameData s (s.modify e f) := by
  refine ⟨rfl, fun x => ?_⟩
  by_cases hx : x = e
  · subst hx
    obtain ⟨h₁, h₂, h₃, h₄⟩ := hf (s.heap x)
    simp [Lists.data, Lists.modify, h₁, h₂, h₃, h₄]
  · simp [Lists.data, Lists.modify, Function.update_of_ne hx]

theorem modify_branch (h : SameData s t) (e : ℕ) (k : κ) :
    SameData (s.modify e fun le => { le with currentBranch := k })
      (t.modify e fun le => { le with currentBranch := k }) := by
  refine ⟨h.live, fun x => ?_⟩
  by_cases hx : x = e
  · subst hx
    simp [Lists.data, Lists.modify, h.waitersHead, h.waitersBottom, h.entity]
  · simpa [Lists.data, Lists.modify, Function.update_of_ne hx] using h.data x

theorem setChild (s : Lists κ ε) (e : ℕ) (v : Option ℕ) :
    SameData s (s.setChild e v) :=
  modify s e _ fun _ => ⟨rfl, rfl, rfl, rfl⟩

theorem setFather (s : Lists κ ε) (e : ℕ) (v : Option ℕ) :
    SameData s (s.setFather e v) :=
  modify s e _ fun _ => ⟨rfl, rfl, rfl, rfl⟩

theorem setFatherIf (s : Lists κ ε) (h v : Option ℕ) :
    SameData s (s.setFatherIf h v) := by
  cases h with
  | none => exact refl s
  | some e => exact setFather s e v

end SameData

/-! ### Chains: what the heads reach -/

/-- From every head the heap links exactly the entities of its list, both ways,
and they all carry that head's address. -/
structure Chains (s : Lists κ ε) (L : κ → List ℕ) : Prop where
  seg : ∀ k, Seg s.children s.fathers none (s.root k) (L k) none
  nodup : ∀ k, (L k).Nodup
  branch : ∀ k, ∀ e ∈ L k, (s.heap e).currentBranch = k

namespace Chains

variable {s t : Lists κ ε} {L : κ → List ℕ} {k k' : κ} {e : ℕ}

/-- An entity is on one list only. -/
theorem eq_of_mem (h : Chains s L) (he : e ∈ L k) (he' : e ∈ L k') : k = k' :=
  (h.branch k e he).symm.trans (h.branch k' e he')

/-- A change of the links of nodes on no list is invisible. -/
theorem congr (h : Chains s L) (hroot : t.root = s.root)
    (hheap : ∀ k, ∀ x ∈ L k, t.children x = s.children x ∧
      t.fathers x = s.fathers x ∧
      (t.heap x).currentBranch = (s.heap x).currentBranch) : Chains t L where
  seg k := by
    rw [hroot]
    exact (h.seg k).congr (fun x hx => (hheap k x hx).1) (fun x hx => (hheap k x hx).2.1)
  nodup := h.nodup
  branch k x hx := (hheap k x hx).2.2.trans (h.branch k x hx)

/-- The walk of `add_to_next` without a comparison ends behind the last entity
of the list it starts on. -/
theorem addToNextLoop_append (toadd x : ℕ) (l : List ℕ) :
    ∀ (fuel : ℕ) (cell : Cell κ) (p : Option ℕ), l.length < fuel →
      Seg s.children s.fathers p (s.read cell) (l ++ [x]) none →
      addToNextLoop none toadd fuel cell s
        = some ((s.setFather toadd (some x)).setChild x (some toadd)) := by
  induction l with
  | nil =>
      intro fuel cell p hfuel hseg
      obtain ⟨n, rfl⟩ : ∃ n, fuel = n + 1 := ⟨fuel - 1, by simp at hfuel; omega⟩
      obtain ⟨hentry, -, hend⟩ := hseg
      have hlast : (s.heap x).child = none := hend
      simp [addToNextLoop, hentry, hlast]
  | cons a l ih =>
      intro fuel cell p hfuel hseg
      obtain ⟨n, rfl⟩ : ∃ n, fuel = n + 1 := ⟨fuel - 1, by simp at hfuel; omega⟩
      obtain ⟨hentry, -, hrest⟩ := hseg
      have hnext : ∃ b, (s.heap a).child = some b := by
        cases l with
        | nil => exact ⟨x, hrest.1⟩
        | cons b l => exact ⟨b, hrest.1⟩
      obtain ⟨b, hb⟩ := hnext
      rw [addToNextLoop, hentry]
      simp only [hb, Option.any_none, Bool.false_eq_true, if_false]
      exact ih n (.child a) (some a) (by simp at hfuel; omega) hrest

/-- The assignments with which `add_to_next` starts. -/
private def reset (s : Lists κ ε) (e : ℕ) (k : κ) : Lists κ ε :=
  s.modify e fun le => { le with child := none, father := none, currentBranch := k }

private theorem addToNext_eq (s : Lists κ ε) (k : κ) (e : ℕ) :
    s.addToNext k e none = match (reset s e k).root k with
      | none => some ((reset s e k).setRoot k (some e))
      | some _ => addToNextLoop none e s.live.card (.root k) (reset s e k) := rfl

private theorem children_reset_self : (reset s e k).children e = none := by
  simp [reset, children, modify]

private theorem fathers_reset_self : (reset s e k).fathers e = none := by
  simp [reset, fathers, modify]

private theorem reset_sameData (s : Lists κ ε) (e : ℕ) (k : κ) :
    SameData (s.modify e fun le => { le with currentBranch := k }) (reset s e k) := by
  refine ⟨rfl, fun x => ?_⟩
  by_cases hx : x = e
  · subst hx; simp [data, reset, modify]
  · simp [data, reset, modify, Function.update_of_ne hx]

private theorem reset_branch_self : ((reset s e k).heap e).currentBranch = k := by
  simp [reset, modify]

private theorem reset_chains (h : Chains s L) (hmem : ∀ k, e ∉ L k) :
    Chains (reset s e k) L := by
  refine h.congr rfl fun k' x hx => ?_
  have hne : x ≠ e := by rintro rfl; exact hmem k' hx
  simp [children, fathers, reset, modify, Function.update_of_ne hne]

/-- Entering an entity at the end of one list, seen from all lists. -/
private theorem append_lists {P : κ → List ℕ → Prop} (hself : P k (L k ++ [e]))
    (hother : ∀ k', k' ≠ k → P k' (L k')) (k' : κ) :
    P k' (Function.update L k (L k ++ [e]) k') := by
  by_cases hk : k' = k
  · subst hk; simpa using hself
  · simpa [Function.update_of_ne hk] using hother k' hk

private theorem append_nodup_branch (h : Chains s L) (hmem : ∀ k, e ∉ L k)
    (hdata : SameData (reset s e k) t) :
    (∀ k', (Function.update L k (L k ++ [e]) k').Nodup) ∧
      ∀ k', ∀ y ∈ Function.update L k (L k ++ [e]) k',
        (t.heap y).currentBranch = k' := by
  constructor
  · refine append_lists (P := fun _ l => l.Nodup) ?_ fun k' _ => h.nodup k'
    refine List.nodup_append.mpr ⟨h.nodup k, by simp, ?_⟩
    rintro a ha b hb rfl
    obtain rfl : a = e := by simpa using hb
    exact hmem k ha
  · have hreset := reset_chains (k := k) h hmem
    refine append_lists (P := fun k' l => ∀ y ∈ l, (t.heap y).currentBranch = k')
      ?_ fun k' _ y hy => (hdata.branch y).trans (hreset.branch k' y hy)
    intro y hy
    rw [hdata.branch y]
    rcases List.mem_append.mp hy with hold | hnew
    · exact hreset.branch k y hold
    · obtain rfl : y = e := by simpa using hnew
      exact reset_branch_self

/-- **`add_to_next` appends.**  Adding an entity that is on no list puts it
behind the last one of the chosen list and changes nothing else. -/
theorem addToNext (h : Chains s L) (hmem : ∀ k, e ∉ L k)
    (hfuel : (L k).length ≤ s.live.card) :
    ∃ t, s.addToNext k e none = some t ∧
      Chains t (Function.update L k (L k ++ [e])) ∧
      SameData (s.modify e fun le => { le with currentBranch := k }) t := by
  have hreset := reset_chains (k := k) h hmem
  have hseg := hreset.seg k
  rw [addToNext_eq]
  rcases List.eq_nil_or_concat (L k) with hnil | ⟨l, x, hconcat⟩
  · -- an empty list: the head cell itself receives the entity
    rw [hnil] at hseg
    rw [show (reset s e k).root k = none from hseg]
    have hdata := SameData.setRoot (reset s e k) k (some e)
    obtain ⟨hnodup, hbranch⟩ := append_nodup_branch h hmem hdata
    refine ⟨_, rfl, ⟨?_, hnodup, hbranch⟩, (reset_sameData s e k).trans hdata⟩
    refine append_lists (P := fun k' l => Seg ((reset s e k).setRoot k (some e)).children
      ((reset s e k).setRoot k (some e)).fathers none
      (((reset s e k).setRoot k (some e)).root k') l none) ?_ fun k' hk => ?_
    · simp [hnil, children_reset_self, fathers_reset_self]
    · simpa [Function.update_of_ne hk] using hreset.seg k'
  · -- otherwise the loop walks to the last entity `x`
    rw [List.concat_eq_append] at hconcat
    rw [hconcat] at hseg hfuel
    have hxk : x ∈ L k := by simp [hconcat]
    have hex : e ≠ x := by rintro rfl; exact hmem k hxk
    have hxl : x ∉ l := by
      have hnd := h.nodup k
      rw [hconcat] at hnd
      exact fun hx => (List.nodup_append.mp hnd).2.2 x hx x (by simp) rfl
    have hdata := (SameData.setFather (reset s e k) e (some x)).trans
      (SameData.setChild _ x (some e))
    obtain ⟨hnodup, hbranch⟩ := append_nodup_branch h hmem hdata
    obtain ⟨a, ha⟩ : ∃ a, (reset s e k).root k = some a := by
      cases l with
      | nil => exact ⟨x, hseg.1⟩
      | cons a l => exact ⟨a, hseg.1⟩
    rw [ha]
    refine ⟨_, addToNextLoop_append e x l _ (.root k) none
      (by simp at hfuel; omega) hseg, ⟨?_, hnodup, hbranch⟩,
      (reset_sameData s e k).trans hdata⟩
    refine append_lists (P := fun k' l => Seg
      (((reset s e k).setFather e (some x)).setChild x (some e)).children
      (((reset s e k).setFather e (some x)).setChild x (some e)).fathers none
      ((reset s e k).root k') l none) ?_ fun k' hk => ?_
    · rw [hconcat]
      refine Seg.push_back hseg (fun y hy => ?_) (fun y hy => ?_) ?_ ?_ ?_
      · have hyx : y ≠ x := by rintro rfl; exact hxl hy
        simp [Function.update_of_ne hyx]
      · have hye : y ≠ e := by rintro rfl; exact hmem k (by simpa [hconcat] using hy)
        simp [Function.update_of_ne hye]
      · simp
      · simp [Function.update_of_ne hex, children_reset_self]
      · simp
    · refine (hreset.seg k').congr (fun y hy => ?_) (fun y hy => ?_)
      · have hyx : y ≠ x := by rintro rfl; exact hk (h.eq_of_mem hy hxk)
        simp [Function.update_of_ne hyx]
      · have hye : y ≠ e := by rintro rfl; exact hmem k' hy
        simp [Function.update_of_ne hye]

/-! ### Unlinking erases -/

/-- The first entity of a list is unlinked: whatever performs these three
assignments erases it. -/
theorem unlink_head (h : Chains s L) (hroot : s.root k = some e) (hbranch : e ∈ L k)
    (htroot : t.root = Function.update s.root k (s.children e))
    (htchildren : t.children = s.children)
    (htfathers : t.fathers = Library.relink s.fathers (s.children e) none)
    (hdata : SameData s t) : Chains t fun k' => (L k').erase e := by
  obtain ⟨l, hl⟩ : ∃ l, L k = e :: l := by
    have hseg := h.seg k
    cases hLk : L k with
    | nil => simp [hLk] at hbranch
    | cons a l =>
        rw [hLk] at hseg
        obtain rfl : e = a := Option.some.inj (hroot.symm.trans hseg.1)
        exact ⟨l, rfl⟩
  have hnext : ∀ y, y ∉ L k → s.children e ≠ some y := fun y hy hcy =>
    hy ((h.seg k).father_of_child hbranch hcy).1
  refine ⟨fun k' => ?_, fun k' => (h.nodup k').erase e, fun k' y hy =>
    (hdata.branch y).trans (h.branch k' y (List.mem_of_mem_erase hy))⟩
  rw [htroot, htchildren, htfathers]
  by_cases hk : k' = k
  · subst hk
    have hseg := h.seg k'
    have hnd := h.nodup k'
    rw [hl] at hseg hnd ⊢
    simpa using hseg.unlink_head hnd
  · have hmem : e ∉ L k' := fun he => hk (h.eq_of_mem he hbranch)
    rw [Function.update_of_ne hk, List.erase_of_not_mem hmem]
    refine (h.seg k').congr (fun _ _ => rfl) fun y hy => ?_
    exact Library.relink_of_ne (hnext y fun hy' => hk (h.eq_of_mem hy hy'))

/-- An entity that is not first in its list has a father, and linking that
father to its child erases it. -/
theorem unlink_after (h : Chains s L) (hroot : s.root k ≠ some e) (hbranch : e ∈ L k) :
    ∃ f, (s.heap e).father = some f ∧
      Chains ((s.setChild f (s.heap e).child).setFatherIf (s.heap e).child (some f))
        fun k' => (L k').erase e := by
  have hseg := h.seg k
  have hnd := h.nodup k
  obtain ⟨l₁, l₂, hl⟩ := List.append_of_mem hbranch
  rw [hl] at hseg hnd
  have hel₁ : e ∉ l₁ := fun he => (List.nodup_append.mp hnd).2.2 e he e (by simp) rfl
  obtain ⟨hlast, hpre, -⟩ := hseg.at_node
  rcases List.eq_nil_or_concat l₁ with rfl | ⟨l₀, x, rfl⟩
  · exact absurd hpre hroot
  rw [List.concat_eq_append] at hlast hl hseg hnd hel₁
  rw [Library.lastOr_concat] at hlast
  refine ⟨x, hlast, ?_⟩
  have hxk : x ∈ L k := by simp [hl]
  have hnext : ∀ y, y ∉ L k → s.children e ≠ some y := fun y hy hcy =>
    hy ((h.seg k).father_of_child hbranch hcy).1
  refine ⟨fun k' => ?_, fun k' => (h.nodup k').erase e, fun k' y hy => ?_⟩
  · rw [root_setFatherIf, root_setChild, children_setFatherIf, children_setChild,
      fathers_setFatherIf, fathers_setChild]
    by_cases hk : k' = k
    · subst hk
      have hsplit : l₀ ++ [x] ++ e :: l₂ = l₀ ++ x :: e :: l₂ := by simp
      rw [hsplit] at hseg hnd
      have herase : (L k').erase e = l₀ ++ x :: l₂ := by
        rw [hl, List.erase_append_right _ hel₁]
        simp
      rw [herase]
      exact hseg.unlink_after hnd
    · have hmem : e ∉ L k' := fun he => hk (h.eq_of_mem he hbranch)
      rw [List.erase_of_not_mem hmem]
      refine (h.seg k').congr (fun y hy => ?_) fun y hy => ?_
      · exact Function.update_of_ne (by rintro rfl; exact hk (h.eq_of_mem hy hxk)) _ _
      · exact Library.relink_of_ne (hnext y fun hy' => hk (h.eq_of_mem hy hy'))
  · have hdata := (SameData.setChild s x (s.heap e).child).trans
      (SameData.setFatherIf _ (s.heap e).child (some x))
    exact (hdata.branch y).trans (h.branch k' y (List.mem_of_mem_erase hy))

end Chains

/-! ### The represented lists -/

/-- The heap stores the lists `L`, and the entities on them are the allocated
ones. -/
structure Represents (s : Lists κ ε) (L : κ → List ℕ) : Prop extends Chains s L where
  live : ∀ e, e ∈ s.live ↔ ∃ k, e ∈ L k

/-- The lists after `mutex_free_change_branch`: the entity goes behind the last
one of its new list, unless that is the list it is on. -/
def moveTo (L : κ → List ℕ) (k : κ) (e : ℕ) : κ → List ℕ :=
  if e ∈ L k then L
  else Function.update (fun k' => (L k').erase e) k (L k ++ [e])

/-- The lists after `remove_from_branch`. -/
def dropFrom (L : κ → List ℕ) (e : ℕ) : κ → List ℕ := fun k => (L k).erase e

namespace Represents

variable {s t : Lists κ ε} {L : κ → List ℕ} {k : κ} {e : ℕ}

/-- An allocated entity is on the list whose head it carries. -/
theorem mem_branch (h : Represents s L) (he : e ∈ s.live) :
    e ∈ L (s.heap e).currentBranch := by
  obtain ⟨k, hk⟩ := (h.live e).mp he
  rwa [h.branch k e hk]

theorem mem_iff (h : Represents s L) (he : e ∈ s.live) :
    e ∈ L k ↔ (s.heap e).currentBranch = k :=
  ⟨h.branch k e, fun hk => hk ▸ h.mem_branch he⟩

theorem length_le (h : Represents s L) (k : κ) : (L k).length ≤ s.live.card := by
  rw [← List.toFinset_card_of_nodup (h.nodup k)]
  exact Finset.card_le_card fun e he => (h.live e).mpr ⟨k, by simpa using he⟩

/-- Changing the payload or the counters of an entity moves nothing. -/
theorem modify (h : Represents s L) (f : ListedEntity κ ε → ListedEntity κ ε)
    (hf : ∀ le, (f le).child = le.child ∧ (f le).father = le.father ∧
      (f le).currentBranch = le.currentBranch) : Represents (s.modify e f) L := by
  refine ⟨h.toChains.congr rfl fun k x _ => ?_, h.live⟩
  by_cases hx : x = e
  · subst hx
    simpa [children, fathers, Lists.modify] using hf (s.heap x)
  · simp [children, fathers, Lists.modify, Function.update_of_ne hx]

private theorem live_moveTo (h : Represents s L) (he : e ∈ s.live) (hk : e ∉ L k) (x : ℕ) :
    x ∈ s.live ↔ ∃ k', x ∈ Function.update (fun k' => (L k').erase e) k (L k ++ [e]) k' := by
  rw [h.live x]
  constructor
  · rintro ⟨k', hx⟩
    by_cases hxe : x = e
    · exact ⟨k, by simp [hxe]⟩
    · refine ⟨k', ?_⟩
      by_cases hk' : k' = k
      · subst hk'; simp [hx]
      · simpa [Function.update_of_ne hk', List.mem_erase_of_ne hxe] using hx
  · rintro ⟨k', hx⟩
    by_cases hk' : k' = k
    · subst hk'
      rw [Function.update_self] at hx
      rcases List.mem_append.mp hx with hold | hnew
      · exact ⟨k', hold⟩
      · obtain rfl : x = e := by simpa using hnew
        exact (h.live x).mp he
    · rw [Function.update_of_ne hk'] at hx
      exact ⟨k', List.mem_of_mem_erase hx⟩

/-- Second half of a move: the unlinked entity is appended to its new list. -/
private theorem addToNext_unlinked (h : Represents s L) (he : e ∈ s.live) (hk : e ∉ L k)
    (hchains : Chains t fun k' => (L k').erase e) (hdata : SameData s t) :
    ∃ u, t.addToNext k e none = some u ∧ Represents u (moveTo L k e) ∧
      SameData (s.modify e fun le => { le with currentBranch := k }) u := by
  have hsub : ((L k).erase e).length ≤ t.live.card := by
    rw [List.erase_of_not_mem hk, hdata.live]
    exact h.length_le k
  obtain ⟨u, hu, hchains', hdata'⟩ :=
    hchains.addToNext (fun k' => (h.nodup k').not_mem_erase) hsub
  rw [List.erase_of_not_mem hk] at hchains'
  refine ⟨u, hu, ?_, (hdata.modify_branch e k).trans hdata'⟩
  rw [moveTo, if_neg hk]
  refine ⟨hchains', fun x => ?_⟩
  rw [hdata'.live, show (t.modify e _).live = t.live from rfl, hdata.live]
  exact h.live_moveTo he hk x

/-- **`mutex_free_change_branch` moves an entity**, to the end of the target
list, and changes no data but its `current_branch`. -/
theorem mutexFreeChangeBranch (h : Represents s L) (he : e ∈ s.live) (k : κ) :
    ∃ t, s.mutexFreeChangeBranch k e = some t ∧ Represents t (moveTo L k e) ∧
      SameData (s.modify e fun le => { le with currentBranch := k }) t := by
  have hmem := h.mem_branch he
  unfold Lists.mutexFreeChangeBranch
  by_cases hsame : (s.heap e).currentBranch = k
  · rw [if_pos hsame]
    rw [hsame] at hmem
    refine ⟨s, rfl, by rwa [moveTo, if_pos hmem], rfl, fun x => ?_⟩
    by_cases hx : x = e
    · subst hx; simp [data, Lists.modify, hsame]
    · simp [data, Lists.modify, Function.update_of_ne hx]
  · rw [if_neg hsame]
    have hnot : e ∉ L k := fun hk => hsame (h.branch k e hk)
    by_cases hroot : s.root (s.heap e).currentBranch = some e
    · rw [if_pos hroot]
      have hdata := (SameData.setRoot s (s.heap e).currentBranch (s.heap e).child).trans
        (SameData.setFatherIf _ (s.heap e).child none)
      exact h.addToNext_unlinked he hnot
        (h.toChains.unlink_head hroot hmem (by simp; rfl) (by simp) (by simp; rfl) hdata) hdata
    · rw [if_neg hroot]
      obtain ⟨f, hf, hchains⟩ := h.toChains.unlink_after hroot hmem
      have hdata := (SameData.setChild s f (s.heap e).child).trans
        (SameData.setFatherIf _ (s.heap e).child (some f))
      simp only [hf]
      exact h.addToNext_unlinked he hnot hchains hdata

end Represents

end Lists

end VlbiStreamer.ResourceTree
