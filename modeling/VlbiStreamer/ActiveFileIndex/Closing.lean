import VlbiStreamer.ActiveFileIndex.Associations
import VlbiStreamer.Library.Looping

/-!
# Closing the active file index

`afi_close` takes the indices off the head of the list one by one and gives each to
`close_file_index`, which looks for it in the list once more.  It is not there; the search
walks to the end of what is left, and it looks at `iter->next` before it has looked whether
there is an `iter`.

`closesAll_iff` says that `afi_close` does its work when there is none, and
`afiClose_crashes` what it does otherwise: it closes all indices but one and dereferences
`files`, which is `NULL`, for the last one.
-/

namespace VlbiStreamer.ActiveFileIndex

open Library

/-- What `afi_close` works on: the list, `retval` and the calls of `close_file_index`. -/
structure Closing where
  registry : Registry
  retval : ℤ
  closed : List ℕ

namespace Registry

/-- The head `temp` is unlinked by hand and then closed. -/
def closeHead (temp : ℕ) (s : Registry) : Option (ℤ × Registry) :=
  match s.deref temp with
  | none => none
  | some _ => ({ s with files := s.next temp }.setNext temp none).closeFileIndexMutexFree temp

/-- One turn of the loop of `afi_close`.  It stops with `none` where it crashes. -/
def closeTurn (c : Closing) : Turn Closing (Option Closing) :=
  match c.registry.files with
  | none => .stop (some c)
  | some temp =>
      match c.registry.closeHead temp with
      | none => .stop none
      | some (err, s) =>
          .again ⟨s, if err ≠ 0 then c.retval - 1 else c.retval, c.closed ++ [temp]⟩

/-- `afi_close` comes to an end with `r`. -/
def AfiClose (s : Registry) (r : Option Closing) : Prop := Ends closeTurn ⟨s, 0, []⟩ r

/-- Every index of the list is closed, once, the ones with associations are counted and the
list is empty. -/
def ClosesAll (s : Registry) (l : List ℕ) : Prop :=
  ∃ c, s.AfiClose (some c) ∧ c.closed.Perm l ∧ c.registry.files = none ∧
    c.retval = -(l.countP fun p => (s.entry p).associations ≠ 0 : ℕ) ∧
    c.registry.live = s.live \ l.toFinset

section Closing

variable {s : Registry} {c : Closing} {l : List ℕ} {p q : ℕ}

/-- The last index is looked for in an empty list. -/
theorem Lists.closeHead_last (h : s.Lists [p]) : s.closeHead p = none := by
  obtain ⟨hfiles, hnext⟩ := h.chain
  have hlive : p ∈ s.live := h.live p List.mem_cons_self
  unfold closeHead
  rw [deref_of_mem hlive]
  show (({ s with files := s.next p }.setNext p none).deref p).bind _ = none
  rw [deref_of_mem (show p ∈ ({ s with files := s.next p }.setNext p none).live from hlive)]
  show (removeFromListMutexFree p _).bind _ = none
  have hnone : ({ s with files := s.next p }.setNext p none).files = none := hnext
  unfold removeFromListMutexFree
  rw [hnone, if_neg (by simp), if_pos rfl]
  rfl

/-- Any other one is not found in the rest of the list, and freed. -/
theorem Lists.closeHead_cons (h : s.Lists (p :: q :: l)) :
    ∃ s', s.closeHead p = some (if (s.entry p).associations ≠ 0 then -1 else 0, s') ∧
      s'.Lists (q :: l) ∧ s'.entry = s.entry ∧ s'.live = s.live.erase p := by
  have hp : p ∉ q :: l := (List.nodup_cons.mp h.nodup).1
  have hlive : p ∈ s.live := h.live p List.mem_cons_self
  generalize hs₁ : ({ s with files := s.next p } : Registry).setNext p none = s₁
  have hlists : s₁.Lists (q :: l) := by
    rw [← hs₁]
    refine ⟨h.chain.2.congr fun a ha => ?_, (List.nodup_cons.mp h.nodup).2, fun a ha => ?_⟩
    · exact Function.update_of_ne (by rintro rfl; exact hp ha) _ _
    · exact h.live a (List.mem_cons_of_mem _ ha)
  have hlive₁ : s₁.live = s.live := by rw [← hs₁]; rfl
  have hentry₁ : s₁.entry = s.entry := by rw [← hs₁]; rfl
  have hfiles : s₁.files = some q := hlists.chain.1
  -- no pointer of the list leads to `p`
  have hnot : (q :: l).find? (fun a => decide (s₁.next a = some p)) = none := by
    rw [List.find?_eq_none]
    intro a ha hnext
    exact hp (hlists.chain.next_mem ha (of_decide_eq_true hnext))
  have hremove : s₁.removeFromListMutexFree p = some s₁ := by
    unfold removeFromListMutexFree
    have hqp : some q ≠ some p := by
      rintro ⟨⟩
      exact hp List.mem_cons_self
    rw [hfiles, if_neg hqp, if_neg (by simp), hlists.walk_eq, hnot]
  refine ⟨{ s₁ with live := s₁.live.erase p }, ?_, ?_, hentry₁, ?_⟩
  · unfold closeHead
    rw [deref_of_mem hlive]
    show closeFileIndexMutexFree p _ = _
    rw [hs₁]
    unfold closeFileIndexMutexFree
    rw [deref_of_mem (hlive₁ ▸ hlive), ← hentry₁]
    show (removeFromListMutexFree p s₁).bind _ = _
    rw [hremove]
    rfl
  · refine ⟨hlists.chain, hlists.nodup, fun a ha => Finset.mem_erase.mpr ⟨?_, hlists.live a ha⟩⟩
    rintro rfl
    exact hp ha
  · show s₁.live.erase p = _
    rw [hlive₁]

/-- **`afi_close` crashes** on every list with an index in it. -/
theorem Lists.afiClose_crashes (h : c.registry.Lists (p :: l)) : Ends closeTurn c none := by
  induction l generalizing c p with
  | nil =>
      refine Ends.stop ?_
      unfold closeTurn
      rw [h.chain.1]
      simp only [h.closeHead_last]
  | cons q l ih =>
      obtain ⟨s', hclose, hlists, -, -⟩ := h.closeHead_cons
      have hturn : closeTurn c = .again ⟨s',
          if (if (c.registry.entry p).associations ≠ 0 then (-1 : ℤ) else 0) ≠ 0 then
            c.retval - 1 else c.retval, c.closed ++ [p]⟩ := by
        unfold closeTurn
        rw [h.chain.1]
        simp only [hclose]
      exact (Ends.again_iff hturn).mpr (ih hlists)

/-- **`afi_close` closes the list exactly when it is empty.** -/
theorem closesAll_iff (h : s.Lists l) : s.ClosesAll l ↔ l = [] := by
  constructor
  · rintro ⟨c, hends, -⟩
    cases l with
    | nil => rfl
    | cons p l =>
        have hcrash : s.AfiClose none := Lists.afiClose_crashes (c := ⟨s, 0, []⟩) h
        cases hcrash.unique hends
  · rintro rfl
    have hfiles : s.files = none := h.chain
    refine ⟨⟨s, 0, []⟩, Ends.stop ?_, List.Perm.nil, hfiles, rfl, ?_⟩
    · unfold closeTurn
      rw [hfiles]
    · exact (Finset.sdiff_empty).symm

end Closing

end Registry

/-- Nobody has opened anything. -/
theorem closesAll_iff_noIndex : noIndex.Lists [] ∧ (noIndex.ClosesAll [] ↔ [] = ([] : List ℕ)) := by
  have hlists : noIndex.Lists [] := Registry.IsInit.lists ⟨rfl, rfl⟩
  exact ⟨hlists, Registry.closesAll_iff hlists⟩

/-- **One recording is enough.**  It is in the list, and `afi_close` crashes. -/
theorem recording_not_closed :
    ¬ ∀ (s : Registry) (out : List Association) (l : List ℕ),
      Calls.system.Reachable (.run s out) → s.Lists l → s.ClosesAll l := by
  intro hall
  have hinit : Calls.system.Reachable (.run noIndex []) := .init ⟨noIndex, ⟨rfl, rfl⟩, rfl⟩
  obtain ⟨s, out, hrun, hfiles, hnext, hlive⟩ : ∃ s out, System.runFrom Calls.step
      (.run noIndex []) [.add "first" 0 .recorder 5008 1] = some (.run s out) ∧
      s.files = some 1 ∧ s.next 1 = none ∧ s.live = {1} := ⟨_, _, rfl, rfl, rfl, rfl⟩
  have hlists : s.Lists [1] := by
    refine ⟨⟨hfiles, hnext⟩, List.nodup_singleton 1, fun p hp => ?_⟩
    rw [hlive, List.mem_singleton.mp hp]
    exact Finset.mem_singleton_self 1
  obtain ⟨c, hends, -⟩ := hall s out [1] (hinit.runFrom hrun) hlists
  have hcrash : s.AfiClose none :=
    Registry.Lists.afiClose_crashes (c := ⟨s, 0, []⟩) hlists
  cases hcrash.unique hends

end VlbiStreamer.ActiveFileIndex
