import Mathlib.Data.List.Nodup
import Mathlib.Logic.Function.Basic

/-!
# Singly linked lists

Lists of nodes that only point forward.  `Chain next h l n` says that the nodes of
`l`, in this order, are what one meets when entering at `h`, and that the last of
them points on to `n`; a whole list is a chain that ends in `none`.

A program walks such a list with a loop that looks at a node and follows its
pointer.  `search` is that loop, with a step that may fail, and `Chain.search_eq`
says what it finds.  The two operations that need the node before a place look for it
by its pointer: `Chain.find_last` for linking in at the end and `Chain.find_before`
for unlinking a node, whose effects are `Chain.push_back` and `Chain.unlink`.
-/

namespace VlbiStreamer.Library

universe u

variable {α : Type u}

/-- The nodes of `l` are a list that is entered at `h` and goes on to `n`. -/
def Chain (next : α → Option α) : Option α → List α → Option α → Prop
  | h, [], n => h = n
  | h, a :: l, n => h = some a ∧ Chain next (next a) l n

variable {next next' : α → Option α} {h m n : Option α} {l l₁ l₂ : List α} {a e x : α}

@[simp] theorem Chain.nil_iff : Chain next h [] n ↔ h = n := Iff.rfl

@[simp] theorem Chain.cons_iff :
    Chain next h (a :: l) n ↔ h = some a ∧ Chain next (next a) l n := Iff.rfl

/-- Cutting a chain in two. -/
theorem Chain.append :
    Chain next h (l₁ ++ l₂) n ↔ ∃ m, Chain next h l₁ m ∧ Chain next m l₂ n := by
  induction l₁ generalizing h with
  | nil => simp
  | cons a l₁ ih =>
      rw [List.cons_append, Chain.cons_iff, ih]
      constructor
      · rintro ⟨hh, m, h₁, h₂⟩
        exact ⟨m, ⟨hh, h₁⟩, h₂⟩
      · rintro ⟨m, ⟨hh, h₁⟩, h₂⟩
        exact ⟨hh, m, h₁, h₂⟩

/-- A chain only depends on the pointers of its own nodes. -/
theorem Chain.congr (hn : ∀ x ∈ l, next' x = next x) (hc : Chain next h l n) :
    Chain next' h l n := by
  induction l generalizing h with
  | nil => exact hc
  | cons a l ih =>
      obtain ⟨hh, hrest⟩ := hc
      refine ⟨hh, ?_⟩
      rw [hn a List.mem_cons_self]
      exact ih (fun x hx => hn x (List.mem_cons_of_mem _ hx)) hrest

/-- The entry and the pointers determine the list. -/
theorem Chain.unique (h₁ : Chain next h l₁ none) (h₂ : Chain next h l₂ none) : l₁ = l₂ := by
  induction l₁ generalizing h l₂ with
  | nil =>
      cases l₂ with
      | nil => rfl
      | cons b l₂ =>
          rw [Chain.nil_iff] at h₁
          rw [h₁] at h₂
          exact absurd h₂.1 (by simp)
  | cons a l₁ ih =>
      obtain ⟨rfl, hrest⟩ := h₁
      cases l₂ with
      | nil => exact absurd h₂ (by simp)
      | cons b l₂ =>
          obtain ⟨hb, hrest₂⟩ := h₂
          obtain rfl := Option.some.inj hb
          rw [ih hrest hrest₂]

/-- A node of a list points on to the rest of it. -/
theorem Chain.at_node (hc : Chain next h (l₁ ++ e :: l₂) n) :
    Chain next h l₁ (some e) ∧ Chain next (next e) l₂ n := by
  obtain ⟨m, hpre, rfl, hpost⟩ := Chain.append.mp hc
  exact ⟨hpre, hpost⟩

/-- The pointers of a list stay in it. -/
theorem Chain.next_mem (hc : Chain next h l none) (ha : a ∈ l) (hx : next a = some x) :
    x ∈ l := by
  obtain ⟨l₁, l₂, rfl⟩ := List.append_of_mem ha
  cases l₂ with
  | nil =>
      have hend : next a = none := hc.at_node.2
      rw [hend] at hx
      cases hx
  | cons b l₂ =>
      obtain rfl := Option.some.inj (hc.at_node.2.1.symm.trans hx)
      exact List.mem_append_right _ (List.mem_cons_of_mem _ List.mem_cons_self)

/-! ## Walking -/

/-- `while (p != NULL) { if (test p) return p; p = p->next; }`, where `look` reads the
test and the pointer of a node; it fails on a node that must not be read. -/
def search (look : α → Option (Bool × Option α)) : ℕ → Option α → Option (Option α)
  | _, none => some none
  | 0, some _ => none
  | fuel + 1, some p =>
      match look p with
      | none => none
      | some (true, _) => some (some p)
      | some (false, next) => search look fuel next

/-- **A walk finds the first node that passes the test.** -/
theorem Chain.search_eq {look : α → Option (Bool × Option α)} {test : α → Bool}
    {fuel : ℕ} (hc : Chain next h l none) (hlook : ∀ x ∈ l, look x = some (test x, next x))
    (hfuel : l.length ≤ fuel) : search look fuel h = some (l.find? test) := by
  induction l generalizing h fuel with
  | nil =>
      obtain rfl := hc
      cases fuel <;> rfl
  | cons a l ih =>
      obtain ⟨rfl, hrest⟩ := hc
      cases fuel with
      | zero => exact absurd hfuel (by simp)
      | succ fuel =>
          have hstep := hlook a List.mem_cons_self
          unfold search
          rw [hstep]
          cases htest : test a with
          | true => rw [List.find?_cons_of_pos htest]
          | false =>
              rw [List.find?_cons_of_neg (by rw [htest]; exact Bool.false_ne_true)]
              exact ih hrest (fun x hx => hlook x (List.mem_cons_of_mem _ hx))
                (Nat.le_of_succ_le_succ hfuel)

/-- A walk to the node that points nowhere ends at the last node. -/
theorem Chain.find_last (hc : Chain next h (l ++ [x]) none) :
    (l ++ [x]).find? (fun y => (next y).isNone) = some x := by
  rw [List.find?_append]
  have hnone : l.find? (fun y => (next y).isNone) = none := by
    rw [List.find?_eq_none]
    intro y hy hlast
    obtain ⟨l₁, l₂, rfl⟩ := List.append_of_mem hy
    rw [List.append_assoc, List.cons_append] at hc
    obtain ⟨-, hpost⟩ := hc.at_node
    rw [Option.isNone_iff_eq_none.mp hlast] at hpost
    cases l₂ with
    | nil => exact absurd hpost.1 (by simp)
    | cons b l₂ => exact absurd hpost.1 (by simp)
  obtain ⟨-, hnext⟩ := Chain.at_node hc
  have hx : next x = none := hnext
  rw [hnone, Option.none_or]
  simp [hx]

section Unlink

variable [DecidableEq α]

/-- A walk to the node that points to `e` ends at the one before `e`. -/
theorem Chain.find_before (hnodup : (l₁ ++ x :: e :: l₂).Nodup)
    (hc : Chain next h (l₁ ++ x :: e :: l₂) none) :
    (l₁ ++ x :: e :: l₂).find? (fun y => next y = some e) = some x := by
  rw [List.find?_append]
  have hnone : l₁.find? (fun y => next y = some e) = none := by
    rw [List.find?_eq_none]
    intro y hy hnext
    obtain ⟨k₁, k₂, rfl⟩ := List.append_of_mem hy
    rw [List.append_assoc, List.cons_append] at hc hnodup
    obtain ⟨-, hpost⟩ := hc.at_node
    rw [of_decide_eq_true hnext] at hpost
    -- the node after `y` would be `e`, which comes once only
    have hnot : e ∉ k₂ ++ [x] := by
      have hrest := (List.nodup_cons.mp (List.nodup_append.mp hnodup).2.1).2
      rw [List.append_cons k₂ x] at hrest
      exact fun hmem => (List.nodup_append.mp hrest).2.2 e hmem e List.mem_cons_self rfl
    cases k₂ with
    | nil => exact hnot (by simp [Option.some.inj hpost.1])
    | cons b k₂ => exact hnot (by simp [Option.some.inj hpost.1])
  obtain ⟨-, hnext⟩ := hc.at_node
  have hx : next x = some e := hnext.1
  rw [hnone, Option.none_or]
  simp [hx]

/-- Redirecting the pointer that leads out of a chain. -/
theorem Chain.redirect (hx : x ∉ l) (hc : Chain next h (l ++ [x]) n) (n' : Option α) :
    Chain (Function.update next x n') h (l ++ [x]) n' := by
  obtain ⟨hpre, -⟩ := hc.at_node
  refine Chain.append.mpr ⟨some x, hpre.congr fun y hy => ?_, rfl, by simp⟩
  exact Function.update_of_ne (by rintro rfl; exact hx hy) _ _

/-- Unlinking a node that has a predecessor `x`. -/
theorem Chain.unlink (hnodup : (l₁ ++ x :: e :: l₂).Nodup)
    (hc : Chain next h (l₁ ++ x :: e :: l₂) n) :
    Chain (Function.update next x (next e)) h (l₁ ++ x :: l₂) n := by
  rw [List.append_cons] at hc hnodup ⊢
  obtain ⟨hpre, hpost⟩ := hc.at_node
  have hx : x ∉ l₁ := by
    have hnd := List.nodup_append.mp (List.nodup_append.mp hnodup).1
    exact fun hmem => hnd.2.2 x hmem x List.mem_cons_self rfl
  refine Chain.append.mpr ⟨next e, hpre.redirect hx (next e), hpost.congr fun y hy => ?_⟩
  refine Function.update_of_ne ?_ _ _
  rintro rfl
  exact (List.nodup_append.mp hnodup).2.2 y (by simp) y (List.mem_cons_of_mem _ hy) rfl

end Unlink

/-- Linking a node in behind the last one. -/
theorem Chain.push_back (hc : Chain next h (l ++ [x]) none) (hnext : ∀ y ∈ l, next' y = next y)
    (hx : next' x = some e) (he : next' e = none) : Chain next' h (l ++ [x] ++ [e]) none := by
  obtain ⟨hpre, -⟩ := hc.at_node
  exact Chain.append.mpr ⟨some e, Chain.append.mpr ⟨some x, hpre.congr hnext, rfl, hx⟩, rfl, he⟩

end VlbiStreamer.Library
