import Mathlib.Data.List.Nodup
import Mathlib.Logic.Function.Basic

/-!
# Doubly linked segments

Intrusive doubly linked lists, seen through their two pointer functions: every
node `a` has a forward pointer `child a` and a backward pointer `father a`.
`Seg child father p h l n` says that the nodes of `l`, in this order, are what
one meets when entering at `h`, that the first of them points back to `p` and
that the last one points on to `n`.  A whole list is a segment between two
`none`s.

Everything a list operation does to the pointers is one `Function.update` at a
time, so the library has one rule for each: redirect the pointer out of the
segment (`Seg.set_child_last`), redirect the pointer back into its predecessor
(`Seg.relink`), and leave a segment alone when the updated node is not
in it.  `Seg.append` cuts and joins segments.
-/

namespace VlbiStreamer.Library

universe u

variable {α : Type u}

/-- The node before the end of a segment: its last node, or the node before
the segment when there is none. -/
def lastOr (p : Option α) : List α → Option α
  | [] => p
  | a :: l => lastOr (some a) l

@[simp] theorem lastOr_nil (p : Option α) : lastOr p [] = p := rfl

@[simp] theorem lastOr_cons (p : Option α) (a : α) (l : List α) :
    lastOr p (a :: l) = lastOr (some a) l := rfl

@[simp] theorem lastOr_concat (p : Option α) (l : List α) (a : α) :
    lastOr p (l ++ [a]) = some a := by
  induction l generalizing p with
  | nil => rfl
  | cons b l ih => exact ih (some b)

/-- The nodes of `l` form a doubly linked segment entered at `h`, whose first
node points back to `p` and whose last node points on to `n`. -/
def Seg (child father : α → Option α) :
    Option α → Option α → List α → Option α → Prop
  | _, h, [], n => h = n
  | p, h, a :: l, n =>
      h = some a ∧ father a = p ∧ Seg child father (some a) (child a) l n

variable {child father : α → Option α} {p h m n : Option α} {l l₁ l₂ : List α}
  {a e : α}

@[simp] theorem Seg.nil_iff : Seg child father p h [] n ↔ h = n := Iff.rfl

@[simp] theorem Seg.cons_iff :
    Seg child father p h (a :: l) n ↔
      h = some a ∧ father a = p ∧ Seg child father (some a) (child a) l n :=
  Iff.rfl

/-- Cutting a segment in two. -/
theorem Seg.append :
    Seg child father p h (l₁ ++ l₂) n ↔
      ∃ m, Seg child father p h l₁ m ∧
        Seg child father (lastOr p l₁) m l₂ n := by
  induction l₁ generalizing p h with
  | nil => simp
  | cons a l₁ ih =>
      simp only [List.cons_append, Seg.cons_iff, lastOr_cons, ih]
      constructor
      · rintro ⟨hh, hf, m, h₁, h₂⟩
        exact ⟨m, ⟨hh, hf, h₁⟩, h₂⟩
      · rintro ⟨m, ⟨hh, hf, h₁⟩, h₂⟩
        exact ⟨hh, hf, m, h₁, h₂⟩

/-- A segment only depends on the pointers of its own nodes. -/
theorem Seg.congr {child' father' : α → Option α}
    (hc : ∀ x ∈ l, child' x = child x) (hf : ∀ x ∈ l, father' x = father x)
    (hseg : Seg child father p h l n) : Seg child' father' p h l n := by
  induction l generalizing p h with
  | nil => exact hseg
  | cons a l ih =>
      obtain ⟨hh, hfa, hrest⟩ := hseg
      refine ⟨hh, (hf a List.mem_cons_self).trans hfa, ?_⟩
      rw [hc a List.mem_cons_self]
      exact ih (fun x hx => hc x (List.mem_cons_of_mem _ hx))
        (fun x hx => hf x (List.mem_cons_of_mem _ hx)) hrest

/-- Opening a segment at one of its nodes. -/
theorem Seg.at_node (hseg : Seg child father p h (l₁ ++ e :: l₂) n) :
    father e = lastOr p l₁ ∧ Seg child father p h l₁ (some e) ∧
      Seg child father (some e) (child e) l₂ n := by
  obtain ⟨m, hpre, rfl, hfe, hpost⟩ := Seg.append.mp hseg
  exact ⟨hfe, hpre, hpost⟩

/-- In a segment that ends a list, `child` leads from one node to the node
that points back to it. -/
theorem Seg.father_of_child (hseg : Seg child father p h l none) {x y : α}
    (hx : x ∈ l) (hxy : child x = some y) : y ∈ l ∧ father y = some x := by
  obtain ⟨l₁, l₂, rfl⟩ := List.append_of_mem hx
  obtain ⟨-, -, hpost⟩ := hseg.at_node
  cases l₂ with
  | nil => simp [hxy] at hpost
  | cons b l₂ =>
      obtain ⟨hb, hfb, -⟩ := hpost
      obtain rfl : y = b := Option.some.inj (hxy.symm.trans hb)
      exact ⟨by simp, hfb⟩

/-- The converse: in a segment that starts a list, a node that points back to
`x` is the one `x` points on to. -/
theorem Seg.child_of_father (hseg : Seg child father none h l n) {x y : α}
    (hy : y ∈ l) (hfy : father y = some x) : x ∈ l ∧ child x = some y := by
  obtain ⟨l₁, l₂, rfl⟩ := List.append_of_mem hy
  obtain ⟨hlast, hpre, -⟩ := hseg.at_node
  rcases List.eq_nil_or_concat l₁ with rfl | ⟨l₀, b, rfl⟩
  · simp [hlast] at hfy
  · rw [List.concat_eq_append] at hlast hpre ⊢
    obtain rfl : b = x := by simpa [hlast] using hfy
    obtain ⟨-, -, hnext⟩ := Seg.at_node hpre
    exact ⟨by simp, by simpa using hnext⟩

/-- The only node without a father is the first one. -/
theorem Seg.entry_of_father_none (hseg : Seg child father none h l n) {x : α}
    (hx : x ∈ l) (hfx : father x = none) : h = some x := by
  obtain ⟨l₁, l₂, rfl⟩ := List.append_of_mem hx
  obtain ⟨hlast, hpre, -⟩ := hseg.at_node
  rcases List.eq_nil_or_concat l₁ with rfl | ⟨l₀, b, rfl⟩
  · simpa using hpre
  · rw [List.concat_eq_append, lastOr_concat] at hlast
    simp [hlast] at hfx

/-! ## Updating one pointer -/

section Update

variable [DecidableEq α]

/-- Redirecting the pointer that leads out of a segment. -/
theorem Seg.set_child_last {x : α} (hx : x ∉ l)
    (hseg : Seg child father p h (l ++ [x]) n) (n' : Option α) :
    Seg (Function.update child x n') father p h (l ++ [x]) n' := by
  obtain ⟨m, hpre, rfl, hfx, -⟩ := Seg.append.mp hseg
  refine Seg.append.mpr ⟨some x, hpre.congr (fun y hy => ?_) (fun _ _ => rfl),
    rfl, hfx, by simp⟩
  exact Function.update_of_ne (by rintro rfl; exact hx hy) _ _

/-- `relink father h q` makes the node at `h`, if there is one, point back to
`q`: the guarded assignment `if (h != NULL) h->father = q`. -/
def relink (father : α → Option α) : Option α → Option α → α → Option α
  | none, _ => father
  | some c, q => Function.update father c q

@[simp] theorem relink_none (q : Option α) : relink father none q = father := rfl

@[simp] theorem relink_some (c : α) (q : Option α) :
    relink father (some c) q = Function.update father c q := rfl

theorem relink_of_ne {q : Option α} {x : α} (hne : h ≠ some x) :
    relink father h q x = father x := by
  cases h with
  | none => rfl
  | some c => exact Function.update_of_ne (by rintro rfl; exact hne rfl) _ _

/-- Redirecting the pointer that leads back out of a segment. -/
theorem Seg.relink (hnodup : l.Nodup) (hseg : Seg child father p h l none)
    (q : Option α) : Seg child (relink father h q) q h l none := by
  cases l with
  | nil => simpa using hseg
  | cons a l =>
      obtain ⟨rfl, -, hrest⟩ := hseg
      refine ⟨rfl, by simp, hrest.congr (fun _ _ => rfl) (fun y hy => ?_)⟩
      exact relink_of_ne fun hay =>
        (List.nodup_cons.mp hnodup).1 (Option.some.inj hay ▸ hy)

/-- Unlinking the first node of a list. -/
theorem Seg.unlink_head (hnodup : (e :: l).Nodup)
    (hseg : Seg child father p h (e :: l) none) :
    Seg child (Library.relink father (child e) p) p (child e) l none :=
  Seg.relink (List.nodup_cons.mp hnodup).2 hseg.2.2 p

/-- Unlinking a node that has a predecessor `x` in the list. -/
theorem Seg.unlink_after {x : α} (hnodup : (l₁ ++ x :: e :: l₂).Nodup)
    (hseg : Seg child father p h (l₁ ++ x :: e :: l₂) none) :
    Seg (Function.update child x (child e))
      (Library.relink father (child e) (some x)) p h (l₁ ++ x :: l₂) none := by
  have hsplit : l₁ ++ x :: e :: l₂ = (l₁ ++ [x]) ++ e :: l₂ := by simp
  rw [hsplit] at hseg hnodup
  obtain ⟨-, hpre, hpost⟩ := hseg.at_node
  obtain ⟨hnd₁, hnd₂, hdisj⟩ := List.nodup_append.mp hnodup
  have hxl₁ : x ∉ l₁ := by
    have := List.nodup_append.mp hnd₁
    exact fun hx => this.2.2 x hx x (by simp) rfl
  have hentry : ∀ y, y ∉ l₂ → child e ≠ some y := by
    intro y hy hcy
    cases l₂ with
    | nil => simp [hcy] at hpost
    | cons b l₂ => exact hy (Option.some.inj (hcy.symm.trans hpost.1) ▸ by simp)
  have hjoin : Seg (Function.update child x (child e))
      (Library.relink father (child e) (some x)) p h ((l₁ ++ [x]) ++ l₂) none := by
    refine Seg.append.mpr ⟨child e, ?_, ?_⟩
    · refine (hpre.set_child_last hxl₁ (child e)).congr (fun _ _ => rfl) ?_
      intro y hy
      exact relink_of_ne (hentry y fun hy₂ => hdisj y hy y (by simp [hy₂]) rfl)
    · rw [lastOr_concat]
      refine (Seg.relink (List.nodup_cons.mp hnd₂).2 hpost (some x)).congr ?_
        (fun _ _ => rfl)
      intro y hy
      exact Function.update_of_ne
        (fun hyx => hdisj x (by simp) y (by simp [hy]) hyx.symm) _ _
  simpa using hjoin

end Update

/-- Linking a node in behind the last one. -/
theorem Seg.push_back {child' father' : α → Option α} {x : α}
    (hseg : Seg child father p h (l ++ [x]) none)
    (hchild : ∀ y ∈ l, child' y = child y)
    (hfather : ∀ y ∈ l ++ [x], father' y = father y)
    (hx : child' x = some e) (he : child' e = none) (hfe : father' e = some x) :
    Seg child' father' p h (l ++ [x] ++ [e]) none := by
  obtain ⟨m, hpre, rfl, hfx, -⟩ := Seg.append.mp hseg
  refine Seg.append.mpr ⟨some e, Seg.append.mpr ⟨some x, ?_, rfl, ?_, hx⟩, rfl, ?_, he⟩
  · exact hpre.congr hchild fun y hy => hfather y (by simp [hy])
  · rw [hfather x (by simp), hfx]
  · rw [lastOr_concat, hfe]

/-- Linking a node in before the first one. -/
theorem Seg.push_front {child' father' : α → Option α} {q : Option α} {x : α}
    (hseg : Seg child father p h (x :: l) n) (hchild : ∀ y ∈ x :: l, child' y = child y)
    (hfather : ∀ y ∈ l, father' y = father y) (hx : father' x = some e)
    (he : child' e = some x) (hfe : father' e = q) :
    Seg child' father' q (some e) (e :: x :: l) n := by
  obtain ⟨rfl, -, hrest⟩ := hseg
  refine ⟨rfl, hfe, he, hx, ?_⟩
  rw [hchild x List.mem_cons_self]
  exact hrest.congr (fun y hy => hchild y (List.mem_cons_of_mem _ hy)) hfather

/-- Linking a node in between two others. -/
theorem Seg.insert_between {child' father' : α → Option α} {f x : α}
    (hseg : Seg child father p h (l₁ ++ f :: x :: l₂) n)
    (hchild : ∀ y ∈ l₁ ++ x :: l₂, child' y = child y)
    (hfather : ∀ y ∈ l₁ ++ f :: l₂, father' y = father y) (hf : child' f = some e)
    (he : child' e = some x) (hfe : father' e = some f) (hx : father' x = some e) :
    Seg child' father' p h (l₁ ++ f :: e :: x :: l₂) n := by
  obtain ⟨hff, hpre, hpost⟩ := hseg.at_node
  refine Seg.append.mpr ⟨some f, hpre.congr ?_ ?_, rfl, ?_, ?_⟩
  · exact fun y hy => hchild y (List.mem_append_left _ hy)
  · exact fun y hy => hfather y (List.mem_append_left _ hy)
  · rw [hfather f (by simp), hff]
  · rw [hf]
    refine hpost.push_front (fun y hy => hchild y (List.mem_append_right _ hy)) ?_ hx he hfe
    exact fun y hy => hfather y (by simp [hy])

theorem eq_nil_of_lastOr {l : List α} (h : lastOr none l = none) : l = [] := by
  rcases List.eq_nil_or_concat l with rfl | ⟨l₀, b, rfl⟩
  · rfl
  · rw [List.concat_eq_append, lastOr_concat] at h
    cases h

theorem exists_of_lastOr {l : List α} {f : α} (h : lastOr none l = some f) :
    ∃ l₀, l = l₀ ++ [f] := by
  rcases List.eq_nil_or_concat l with rfl | ⟨l₀, b, rfl⟩
  · cases h
  · rw [List.concat_eq_append, lastOr_concat] at h
    obtain rfl := Option.some.inj h
    exact ⟨l₀, List.concat_eq_append⟩

end VlbiStreamer.Library
