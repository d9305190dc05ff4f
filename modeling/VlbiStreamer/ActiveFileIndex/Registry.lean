import Mathlib.Data.Finset.Card
import VlbiStreamer.ActiveFileIndex.Index
import VlbiStreamer.Library.SinglyLinked

/-!
# The list of the file indices

`active_file_index.c` keeps every `file_index` in one singly linked list, `files`,
where the recorders and the senders of a recording find it by its name.  Each of
them is an association; the one that gives up the last association unlinks the
index and frees it.

The fields of a `file_index` are kept apart: `next` is its pointer, `entry` the rest
of it.  `live` is the set of the addresses that are allocated and not freed.  An
operation returns `none` where the C code fails an assertion or touches an address
that is not live.

`afi_add` and `afi_disassociate` take one lock after the other, so that each is two
operations here, with what the caller does in between given as a value.  `Lists s l`
says that the entries of the list are the ones of `l`.
-/

namespace VlbiStreamer.ActiveFileIndex

open Library

/-- `struct file_index`, less its pointer and its locks. -/
structure Entry where
  filename : String
  associations : ℕ
  fi : FileIndex

/-- The list `files` and the heap it lives in. -/
structure Registry where
  files : Option ℕ
  next : ℕ → Option ℕ
  entry : ℕ → Entry
  live : Finset ℕ

/-- What the section of `afi_add` under the main lock comes to. -/
inductive Lookup where
  /-- There is an index of that name, and the lock is given up. -/
  | found (p : ℕ)
  /-- There is a new one. -/
  | created (p : ℕ)
  | outOfMemory
  deriving DecidableEq, Repr

/-- What is left to do for `afi_disassociate` when it has given up its lock. -/
inductive Unlocked where
  /-- `close_file_index_mutex_free(fi)` -/
  | close
  /-- `afi_wake_up(fi)` -/
  | wakeUp
  | return
  deriving DecidableEq, Repr

namespace Registry

/-! ## Reading and writing -/

/-- The fields of the index at `p`, if it may be read. -/
def deref (s : Registry) (p : ℕ) : Option Entry :=
  if p ∈ s.live then some (s.entry p) else none

/-- Assign to fields of the index at `p`. -/
def modify (s : Registry) (p : ℕ) (f : Entry → Entry) : Registry :=
  { s with entry := Function.update s.entry p (f (s.entry p)) }

/-- `p->next = q`. -/
def setNext (s : Registry) (p : ℕ) (q : Option ℕ) : Registry :=
  { s with next := Function.update s.next p q }

/-- Walk the list to the first index that passes a test. -/
def walk (s : Registry) (test : ℕ → Bool) : Option (Option ℕ) :=
  search (fun p => (s.deref p).map fun _ => (test p, s.next p)) s.live.card s.files

/-! ## The list -/

/-- The loop of `afi_get_mutex_free(name, associate)`. -/
def find (s : Registry) (name : String) : Option (Option ℕ) :=
  s.walk fun p => (s.entry p).filename == name

/-- `afi_get(name, associate)`, under the main lock. -/
def afiGet (name : String) (associate : Bool) (s : Registry) : Option (Option ℕ × Registry) :=
  match s.find name with
  | none => none
  | some none => some (none, s)
  | some (some p) =>
      some (some p, s.modify p fun e =>
        { e with associations := e.associations + if associate then 1 else 0 })

/-- `add_to_list_mutex_free(fi)` -/
def addToListMutexFree (p : ℕ) (s : Registry) : Option Registry :=
  match s.files with
  | none => some { s with files := some p }
  | some _ =>
      match s.walk fun q => (s.next q).isNone with
      | some (some q) => some (s.setNext q (some p))
      | _ => none

/-- `remove_from_list_mutex_free(fi)` -/
def removeFromListMutexFree (p : ℕ) (s : Registry) : Option Registry :=
  if s.files = some p then some ({ s with files := s.next p }.setNext p none)
  else if s.files = none then none
  else match s.walk fun q => s.next q = some p with
    | none => none
    | some none => some s  -- "Could not find %s from file index"
    | some (some q) => some ((s.setNext q (s.next p)).setNext p none)

/-- `close_file_index_mutex_free(fi)` with its return value. -/
def closeFileIndexMutexFree (p : ℕ) (s : Registry) : Option (Int × Registry) := do
  let e ← s.deref p
  let s ← s.removeFromListMutexFree p
  some (if e.associations ≠ 0 then -1 else 0, { s with live := s.live.erase p })

/-! ## Associations -/

/-- `afi_add(name, n_files, status, packet_size)` under the main lock.  `calloc` is the
address of a new index, or `none` when there is no memory for it. -/
def afiAddLookup (name : String) (nFiles : ℕ) (status : Status) (packetSize : ℕ)
    (calloc : Option ℕ) (s : Registry) : Option (Lookup × Registry) :=
  match s.find name with
  | none => none
  | some (some p) => some (.found p, s)
  | some none =>
      match calloc with
      | none => some (.outOfMemory, s)
      | some p => do
          let s ← addToListMutexFree p
            { (s.modify p fun _ => ⟨name, 1, afiAdd nFiles status packetSize⟩).setNext p none with
              live := insert p s.live }
          some (.created p, s)

/-- `afi_add` under the lock of an index that exists. -/
def afiAddAssociate (status : Status) (p : ℕ) (s : Registry) : Option (Option ℕ × Registry) :=
  match s.deref p with
  | none => none
  | some e =>
      let associate (flag : Status) := s.modify p fun e =>
        { e with
          associations := e.associations + 1
          fi := { e.fi with status := e.fi.status ||| flag } }
      if has status afiRecord then
        if has e.fi.status afiRecord then some (none, s)
        else some (some p, associate afiRecord)
      else if has status afiSend then some (some p, associate afiSend)
      else some (some p, associate 0)

/-- `afi_add(name, n_files, status, packet_size)`, alone. -/
def afiAdd (name : String) (nFiles : ℕ) (status : Status) (packetSize : ℕ)
    (calloc : Option ℕ) (s : Registry) : Option (Option ℕ × Registry) :=
  match s.afiAddLookup name nFiles status packetSize calloc with
  | none => none
  | some (.found p, s) => s.afiAddAssociate status p
  | some (.created p, s) => some (some p, s)
  | some (.outOfMemory, s) => some (none, s)

/-- `afi_disassociate(fi, type)` under the lock of the index, with its two
assertions. -/
def afiDisassociateLocked (type : Status) (p : ℕ) (s : Registry) :
    Option (Unlocked × Registry) :=
  match s.deref p with
  | none => none
  | some e =>
      if 0 < e.associations then
        let s := s.modify p fun e => { e with associations := e.associations - 1 }
        if e.associations - 1 = 0 then some (.close, s)
        else if has type afiRecord then
          if has e.fi.status afiRecord then
            some (.wakeUp, s.modify p fun e =>
              { e with fi := { e.fi with status := e.fi.status &&& ~~~afiRecord } })
          else none
        else some (.return, s)
      else none

/-- `afi_wake_up(fi)`: the condition and its mutex are in the index. -/
def afiWakeUp (p : ℕ) (s : Registry) : Option Registry := (s.deref p).map fun _ => s

/-- `afi_disassociate(fi, type)`, alone. -/
def afiDisassociate (type : Status) (p : ℕ) (s : Registry) : Option (Int × Registry) :=
  match s.afiDisassociateLocked type p with
  | none => none
  | some (.close, s) => s.closeFileIndexMutexFree p
  | some (.wakeUp, s) => (s.afiWakeUp p).map fun s => (0, s)
  | some (.return, s) => some (0, s)

/-- `afi_init` -/
def IsInit (s : Registry) : Prop := s.files = none ∧ s.live = ∅

/-! ## The entries of the list -/

/-- The entries of the list, in their order. -/
structure Lists (s : Registry) (l : List ℕ) : Prop where
  chain : Chain s.next s.files l none
  nodup : l.Nodup
  live : ∀ p ∈ l, p ∈ s.live

section Lists

variable {s s' : Registry} {l l₁ l₂ : List ℕ} {p q : ℕ} {name : String} {f : Entry → Entry}

@[simp] theorem modify_files : (s.modify p f).files = s.files := rfl

@[simp] theorem modify_next : (s.modify p f).next = s.next := rfl

@[simp] theorem modify_live : (s.modify p f).live = s.live := rfl

@[simp] theorem modify_self : (s.modify p f).entry p = f (s.entry p) :=
  Function.update_self _ _ _

theorem modify_of_ne (h : q ≠ p) : (s.modify p f).entry q = s.entry q :=
  Function.update_of_ne h _ _

theorem modify_modify {g : Entry → Entry} :
    (s.modify p f).modify p g = s.modify p fun e => g (f e) := by
  unfold modify
  simp only [Function.update_self, Function.update_idem]

theorem deref_of_mem (h : p ∈ s.live) : s.deref p = some (s.entry p) := if_pos h

theorem IsInit.lists (h : s.IsInit) : s.Lists [] :=
  ⟨h.1, List.nodup_nil, fun _ hp => absurd hp List.not_mem_nil⟩

/-- The fields other than the pointers do not matter to the list. -/
theorem Lists.modify (h : s.Lists l) : (s.modify p f).Lists l := ⟨h.chain, h.nodup, h.live⟩

/-- The list is determined by the heap. -/
theorem Lists.unique (h₁ : s.Lists l₁) (h₂ : s.Lists l₂) : l₁ = l₂ := h₁.chain.unique h₂.chain

/-- A walk finds the first entry that passes the test. -/
theorem Lists.walk_eq (h : s.Lists l) (test : ℕ → Bool) : s.walk test = some (l.find? test) := by
  have hlength : l.length ≤ s.live.card := by
    rw [← List.toFinset_card_of_nodup h.nodup]
    exact Finset.card_le_card fun p hp => h.live p (List.mem_toFinset.mp hp)
  refine h.chain.search_eq (fun p hp => ?_) hlength
  rw [deref_of_mem (h.live p hp)]
  rfl

/-- Linking an index in. -/
theorem Lists.addToList (h : s.Lists l) (hp : p ∉ l) (hlive : p ∈ s.live)
    (hnext : s.next p = none) :
    ∃ s', s.addToListMutexFree p = some s' ∧ s'.Lists (l ++ [p]) ∧ s'.entry = s.entry ∧
      s'.live = s.live := by
  unfold addToListMutexFree
  rcases List.eq_nil_or_concat l with rfl | ⟨l₀, q, rfl⟩
  · have hfiles : s.files = none := h.chain
    rw [hfiles]
    refine ⟨_, rfl, ⟨⟨rfl, hnext⟩, List.nodup_singleton p, fun q hq => ?_⟩, rfl, rfl⟩
    rw [List.mem_singleton.mp hq]
    exact hlive
  · rw [List.concat_eq_append] at h hp ⊢
    obtain ⟨a, hfiles⟩ : ∃ a, s.files = some a := by
      cases l₀ with
      | nil => exact ⟨q, h.chain.1⟩
      | cons a l₀ => exact ⟨a, h.chain.1⟩
    rw [h.walk_eq, h.chain.find_last, hfiles]
    have hpq : p ≠ q := by
      rintro rfl
      exact hp (by simp)
    have hq : q ∉ l₀ := fun hmem =>
      (List.nodup_append.mp h.nodup).2.2 q hmem q List.mem_cons_self rfl
    refine ⟨_, rfl, ⟨?_, ?_, ?_⟩, rfl, rfl⟩
    · refine h.chain.push_back (fun y hy => ?_) (Function.update_self _ _ _) ?_
      · exact Function.update_of_ne (by rintro rfl; exact hq hy) _ _
      · exact (Function.update_of_ne hpq _ _).trans hnext
    · rw [List.nodup_append]
      refine ⟨h.nodup, List.nodup_singleton p, fun a ha b hb => ?_⟩
      rw [List.mem_singleton.mp hb]
      rintro rfl
      exact hp ha
    · intro a ha
      rcases List.mem_append.mp ha with ha | ha
      · exact h.live a ha
      · rw [List.mem_singleton.mp ha]
        exact hlive

/-- Unlinking an index. -/
theorem Lists.removeFromList (h : s.Lists l) (hp : p ∈ l) :
    ∃ s', s.removeFromListMutexFree p = some s' ∧ s'.Lists (l.erase p) ∧
      s'.entry = s.entry ∧ s'.live = s.live := by
  obtain ⟨l₁, l₂, rfl⟩ := List.append_of_mem hp
  have hl₁ : p ∉ l₁ := fun hmem =>
    (List.nodup_append.mp h.nodup).2.2 p hmem p List.mem_cons_self rfl
  have herase : (l₁ ++ p :: l₂).erase p = l₁ ++ l₂ := by
    rw [List.erase_append_right _ hl₁, List.erase_cons_head]
  have hnodup : (l₁ ++ l₂).Nodup := herase ▸ h.nodup.erase p
  have hlive : ∀ a ∈ l₁ ++ l₂, a ∈ s.live := fun a ha =>
    h.live a (List.mem_of_mem_erase (herase ▸ ha))
  have hnot : p ∉ l₁ ++ l₂ := herase ▸ h.nodup.not_mem_erase
  -- the pointer of the removed index is reset, which the list does not see
  have hreset : ∀ (next : ℕ → Option ℕ) h₀, Chain next h₀ (l₁ ++ l₂) none →
      Chain (Function.update next p none) h₀ (l₁ ++ l₂) none := fun next h₀ hc =>
    hc.congr fun a ha => Function.update_of_ne (by rintro rfl; exact hnot ha) _ _
  rw [herase]
  unfold removeFromListMutexFree
  rcases List.eq_nil_or_concat l₁ with rfl | ⟨l₀, q, rfl⟩
  · obtain ⟨hfiles, hrest⟩ := h.chain
    rw [if_pos hfiles]
    exact ⟨_, rfl, ⟨hreset _ _ hrest, hnodup, hlive⟩, rfl, rfl⟩
  · rw [List.concat_eq_append, List.append_assoc, List.singleton_append] at h
    have hfiles : s.files ≠ some p ∧ s.files ≠ none := by
      cases l₀ with
      | nil =>
          rw [h.chain.1]
          exact ⟨by rintro ⟨⟩; exact hl₁ (by simp), by simp⟩
      | cons a l₀ =>
          rw [h.chain.1]
          exact ⟨by rintro ⟨⟩; exact hl₁ (by simp), by simp⟩
    rw [if_neg hfiles.1, if_neg hfiles.2, h.walk_eq, h.chain.find_before h.nodup]
    refine ⟨_, rfl, ⟨hreset _ _ ?_, hnodup, hlive⟩, rfl, rfl⟩
    rw [List.concat_eq_append, List.append_assoc, List.singleton_append]
    exact h.chain.unlink h.nodup

/-- **A name is found exactly when an entry has it.** -/
theorem Lists.find_cases (h : s.Lists l) (name : String) :
    (∃ p ∈ l, s.find name = some (some p) ∧ (s.entry p).filename = name) ∨
      s.find name = some none ∧ ∀ p ∈ l, (s.entry p).filename ≠ name := by
  have hwalk : s.find name = some (l.find? fun p => (s.entry p).filename == name) := h.walk_eq _
  rw [hwalk]
  cases hfind : l.find? fun p => (s.entry p).filename == name with
  | some p =>
      refine Or.inl ⟨p, List.mem_of_find?_eq_some hfind, rfl, ?_⟩
      have htest := List.find?_some hfind
      exact beq_iff_eq.mp htest
  | none =>
      refine Or.inr ⟨rfl, fun p hp heq => ?_⟩
      rw [List.find?_eq_none] at hfind
      exact hfind p hp (beq_iff_eq.mpr heq)

/-- A name is new when no entry has it. -/
theorem Lists.find_none_iff (h : s.Lists l) :
    s.find name = some none ↔ ∀ p ∈ l, (s.entry p).filename ≠ name := by
  rcases h.find_cases name with ⟨p, hp, hfind, hname⟩ | ⟨hfind, hnew⟩
  · rw [hfind]
    exact ⟨fun heq => (by cases heq), fun hnew => absurd hname (hnew p hp)⟩
  · exact ⟨fun _ => hnew, fun _ => hfind⟩

/-- A new index is the last one. -/
theorem Lists.create (h : s.Lists l) (hfind : s.find name = some none) (hp : p ∉ s.live)
    (nFiles : ℕ) (status : Status) (packetSize : ℕ) :
    ∃ s', s.afiAddLookup name nFiles status packetSize (some p) = some (.created p, s') ∧
      s'.Lists (l ++ [p]) ∧ s'.live = insert p s.live ∧
      s'.entry = Function.update s.entry p
        ⟨name, 1, ActiveFileIndex.afiAdd nFiles status packetSize⟩ := by
  have hpl : p ∉ l := fun hmem => hp (h.live p hmem)
  generalize hs₁ : ({ (s.modify p fun _ => ⟨name, 1, ActiveFileIndex.afiAdd nFiles status
    packetSize⟩).setNext p none with live := insert p s.live } : Registry) = s₁
  have h₁ : s₁.Lists l := by
    rw [← hs₁]
    refine ⟨h.chain.congr fun a ha => ?_, h.nodup, fun a ha => ?_⟩
    · exact Function.update_of_ne (by rintro rfl; exact hpl ha) _ _
    · exact Finset.mem_insert_of_mem (h.live a ha)
  have hnext : s₁.next p = none := by
    rw [← hs₁]
    exact Function.update_self _ _ _
  have hlive : s₁.live = insert p s.live := by rw [← hs₁]
  obtain ⟨s', hadd, hlists, hentry, hlive'⟩ :=
    h₁.addToList hpl (hlive ▸ Finset.mem_insert_self p _) hnext
  refine ⟨s', ?_, hlists, hlive'.trans hlive, hentry.trans ?_⟩
  · unfold afiAddLookup
    rw [hfind]
    show (addToListMutexFree p _).bind _ = _
    rw [hs₁, hadd]
    rfl
  · rw [← hs₁]
    rfl

/-- Closing an index takes it off the list and frees it. -/
theorem Lists.close (h : s.Lists l) (hp : p ∈ l) :
    ∃ s', s.closeFileIndexMutexFree p =
        some (if (s.entry p).associations ≠ 0 then -1 else 0, s') ∧
      s'.Lists (l.erase p) ∧ s'.live = s.live.erase p ∧ s'.entry = s.entry := by
  obtain ⟨s', hremove, hlists, hentry, hlive⟩ := h.removeFromList hp
  refine ⟨{ s' with live := s'.live.erase p }, ?_, ⟨hlists.chain, hlists.nodup, fun q hq => ?_⟩,
    ?_, hentry⟩
  · unfold closeFileIndexMutexFree
    rw [deref_of_mem (h.live p hp)]
    show (removeFromListMutexFree p s).bind _ = _
    rw [hremove]
    show some (_, { s' with live := s'.live.erase p }) = _
    rfl
  · refine Finset.mem_erase.mpr ⟨?_, hlists.live q hq⟩
    rintro rfl
    exact h.nodup.not_mem_erase hq
  · show s'.live.erase p = _
    rw [hlive]

end Lists

end Registry

/-! ## One client -/

/-- The two kinds of clients. -/
inductive Role where
  | recorder
  | sender
  deriving DecidableEq, Repr

/-- The `afi_file_status` that a client passes. -/
def Role.status : Role → Status
  | .recorder => afiRecord
  | .sender => afiSend

/-- An index with one client more. -/
def associated (role : Role) (e : Entry) : Entry :=
  { e with
    associations := e.associations + 1
    fi := { e.fi with status := e.fi.status ||| role.status } }

/-- An index with one client less. -/
def dissociated (role : Role) (e : Entry) : Entry :=
  { e with
    associations := e.associations - 1
    fi := if e.associations - 1 ≠ 0 ∧ role = .recorder then
        { e.fi with status := e.fi.status &&& ~~~afiRecord }
      else e.fi }

/-- Somebody is recording. -/
def Entry.recording (e : Entry) : Bool := has e.fi.status afiRecord

namespace Registry

section Client

variable {s : Registry} {p : ℕ} {role : Role} {e : Entry}

/-- `AFI_RECORD` is the lowest bit. -/
theorem has_afiRecord (status : Status) : has status afiRecord = status.getLsbD 0 := by
  have hbit : status &&& afiRecord = if status.getLsbD 0 then BitVec.twoPow 32 0 else 0#32 :=
    BitVec.and_twoPow status 0
  unfold has
  rw [hbit]
  cases status.getLsbD 0 <;> rfl

@[simp] theorem associated_filename : (associated role e).filename = e.filename := rfl

@[simp] theorem associated_associations :
    (associated role e).associations = e.associations + 1 := rfl

@[simp] theorem associated_recording :
    (associated role e).recording = (e.recording || role = .recorder) := by
  unfold associated Entry.recording
  rw [has_afiRecord, has_afiRecord]
  cases role <;> simp [Role.status, afiRecord, afiSend]

@[simp] theorem dissociated_filename : (dissociated role e).filename = e.filename := rfl

@[simp] theorem dissociated_associations :
    (dissociated role e).associations = e.associations - 1 := rfl

/-- Only a recorder that is not the last client takes the flag away. -/
theorem dissociated_recording : (dissociated role e).recording =
    (e.recording && !(e.associations - 1 ≠ 0 ∧ role = .recorder)) := by
  unfold dissociated Entry.recording
  by_cases h : e.associations - 1 ≠ 0 ∧ role = .recorder
  · rw [if_pos h, has_afiRecord, has_afiRecord]
    simp [h, afiRecord]
  · rw [if_neg h]
    simp [h]

/-- **`afi_add` on an index that exists**: a second recorder is refused. -/
theorem afiAddAssociate_eq (h : p ∈ s.live) :
    s.afiAddAssociate role.status p =
      if role = .recorder ∧ (s.entry p).recording = true then some (none, s)
      else some (some p, s.modify p (associated role)) := by
  unfold afiAddAssociate
  rw [deref_of_mem h]
  cases role with
  | recorder =>
      show (if has (s.entry p).fi.status afiRecord = true then _ else _) = _
      by_cases hrec : (s.entry p).recording = true
      · have hset : has (s.entry p).fi.status afiRecord = true := hrec
        rw [if_pos hset, if_pos ⟨rfl, hrec⟩]
      · have hclear : ¬ has (s.entry p).fi.status afiRecord = true := hrec
        rw [if_neg hclear, if_neg fun hc => hrec hc.2]
        rfl
  | sender => rfl

/-- **`afi_disassociate` under its lock**, for a client of the index. -/
theorem afiDisassociateLocked_eq (h : p ∈ s.live) (hpos : 0 < (s.entry p).associations)
    (hrec : role = .recorder → (s.entry p).recording = true) :
    s.afiDisassociateLocked role.status p =
      some (if (s.entry p).associations - 1 = 0 then .close
        else if role = .recorder then .wakeUp else .return, s.modify p (dissociated role)) := by
  unfold afiDisassociateLocked
  rw [deref_of_mem h]
  dsimp only
  rw [if_pos hpos]
  by_cases hlast : (s.entry p).associations - 1 = 0
  · rw [if_pos hlast, if_pos hlast]
    unfold modify dissociated
    rw [if_neg fun hc => hc.1 hlast]
  · rw [if_neg hlast, if_neg hlast]
    cases role with
    | recorder =>
        have hset : has (s.entry p).fi.status afiRecord = true := hrec rfl
        show (if has (s.entry p).fi.status afiRecord = true then _ else none) = _
        rw [if_pos hset, if_pos rfl, modify_modify]
        unfold modify dissociated
        rw [if_pos ⟨hlast, rfl⟩]
    | sender =>
        have hrole : ¬ ((s.entry p).associations - 1 ≠ 0 ∧ Role.sender = .recorder) := by simp
        unfold modify dissociated
        rw [if_neg hrole]
        rfl

end Client

end Registry

end VlbiStreamer.ActiveFileIndex
