import Mathlib.Data.List.Sort
import Mathlib.Order.RelClasses

/-!
# Stable insertion

`List.orderedInsert` with a strict order puts an element in front of the first one that it is
below, so behind those that it is not comparable with.  Inserting one element after the other
sorts them (`Ordered`), and elements that are not comparable stay in the order in which they
were inserted (`filter_insertAll`).
-/

namespace VlbiStreamer.Library

universe u

variable {α : Type u} (r : α → α → Prop) [DecidableRel r]

/-- No element is below one in front of it. -/
def Ordered (l : List α) : Prop := l.Pairwise fun a b => ¬ r b a

/-- Insert one element after the other. -/
def insertAll (l es : List α) : List α := es.foldl (fun l e => l.orderedInsert r e) l

/-- Neither is below the other. -/
def Incomparable (a b : α) : Prop := ¬ r a b ∧ ¬ r b a

instance (a : α) : DecidablePred (Incomparable r a) := fun _ => inferInstanceAs (Decidable (_ ∧ _))

variable {r} {a b x : α} {l es : List α}

theorem Ordered.orderedInsert [IsStrictOrder α r] (h : Ordered r l) (a : α) :
    Ordered r (l.orderedInsert r a) := by
  induction l with
  | nil => exact List.pairwise_singleton _ a
  | cons b l ih =>
      obtain ⟨hb, hl⟩ := List.pairwise_cons.mp h
      rw [List.orderedInsert_cons]
      split
      next hab =>
        refine List.pairwise_cons.mpr ⟨?_, h⟩
        intro c hc hca
        have hcb : r c b := IsTrans.trans _ _ _ hca hab
        rcases List.mem_cons.mp hc with rfl | hc
        · exact irrefl c hcb
        · exact hb c hc hcb
      next hab =>
        refine List.pairwise_cons.mpr ⟨?_, ih hl⟩
        intro c hc
        rcases (List.mem_orderedInsert r).mp hc with rfl | hc
        · exact hab
        · exact hb c hc

/-- An element is put behind those that it is not comparable with. -/
theorem filter_orderedInsert [IsStrictWeakOrder α r] (h : Ordered r l) (x a : α) :
    (l.orderedInsert r a).filter (Incomparable r x ·) =
      l.filter (Incomparable r x ·) ++ [a].filter (Incomparable r x ·) := by
  induction l with
  | nil => rfl
  | cons b l ih =>
      obtain ⟨hb, hl⟩ := List.pairwise_cons.mp h
      rw [List.orderedInsert_cons]
      split
      next hab =>
        by_cases hxa : Incomparable r x a
        · have hnone : (b :: l).filter (Incomparable r x ·) = [] := by
            apply List.filter_eq_nil_iff.mpr
            intro c hc hxc
            have hac : Incomparable r a c :=
              IsStrictWeakOrder.incomp_trans a x c hxa.symm (of_decide_eq_true hxc)
            have hcb : ¬ r c b := by
              rcases List.mem_cons.mp hc with rfl | hc
              · exact irrefl c
              · exact hb c hc
            by_cases hbc : r b c
            · exact hac.1 (IsTrans.trans _ _ _ hab hbc)
            · exact (IsStrictWeakOrder.incomp_trans a c b hac ⟨hcb, hbc⟩).1 hab
          have hkeep (t : List α) : (a :: t).filter (Incomparable r x ·) =
              a :: t.filter (Incomparable r x ·) := List.filter_cons_of_pos (decide_eq_true hxa)
          rw [hkeep, hnone, hkeep]
          rfl
        · have hdrop (t : List α) : (a :: t).filter (Incomparable r x ·) =
              t.filter (Incomparable r x ·) :=
            List.filter_cons_of_neg (fun h => hxa (of_decide_eq_true h))
          rw [hdrop, hdrop, List.filter_nil, List.append_nil]
      next hab =>
        rw [List.filter_cons, List.filter_cons, ih hl]
        split
        · rfl
        · rfl

theorem ordered_insertAll [IsStrictOrder α r] (h : Ordered r l) (es : List α) :
    Ordered r (insertAll r l es) := by
  induction es generalizing l with
  | nil => exact h
  | cons e es ih => exact ih (h.orderedInsert e)

theorem perm_insertAll (l es : List α) : (insertAll r l es).Perm (l ++ es) := by
  induction es generalizing l with
  | nil => rw [List.append_nil]; exact List.Perm.refl l
  | cons e es ih =>
      have hmove : (l.orderedInsert r e ++ es).Perm (e :: l ++ es) :=
        (List.perm_orderedInsert r e l).append_right es
      exact (ih _).trans (hmove.trans List.perm_middle.symm)

/-- **Insertion is stable.** -/
theorem filter_insertAll [IsStrictWeakOrder α r] (h : Ordered r l) (x : α) (es : List α) :
    (insertAll r l es).filter (Incomparable r x ·) =
      (l ++ es).filter (Incomparable r x ·) := by
  induction es generalizing l with
  | nil => rw [List.append_nil]; rfl
  | cons e es ih =>
      show (insertAll r (l.orderedInsert r e) es).filter _ = _
      rw [ih (h.orderedInsert e), List.filter_append, filter_orderedInsert h, List.append_assoc,
        ← List.filter_append, ← List.filter_append, List.singleton_append]

end VlbiStreamer.Library
