import VlbiStreamer.ActiveFileIndex.Registry
import VlbiStreamer.Library.Transition

/-!
# The associations of the file indices

The clients of the active file index get an index by `afi_add` or `afi_get` and give
it up by `afi_disassociate`, one call after the other.  `Calls` lists what they do,
with the associations that are outstanding.

`registered_of_reachable` is the law of the list: an index is in it exactly as long as
it has clients, its counter is their number and its flag tells whether one of them
records, and what happens to one index leaves the others alone.
-/

namespace VlbiStreamer.ActiveFileIndex

open Library

/-- An association that was given to a client. -/
structure Association where
  fi : ℕ
  name : String
  role : Role
  deriving DecidableEq

/-- A call of a client. -/
inductive Call where
  /-- `afi_add`; the allocations succeed. -/
  | add (name : String) (nFiles : ℕ) (role : Role) (packetSize : ℕ) (calloc : ℕ)
  /-- `afi_get(name, true)`: only senders get an index in this way. -/
  | get (name : String)
  /-- `afi_disassociate`, with its own type. -/
  | disassociate (a : Association)

/-- The list and the outstanding associations, or a program that has crashed. -/
inductive Calls where
  | run (s : Registry) (out : List Association)
  | crashed

namespace Calls

/-- The association of a client whose call succeeded. -/
def associate (name : String) (role : Role) (out : List Association) :
    Option (Option ℕ × Registry) → Calls
  | none => .crashed
  | some (none, s) => .run s out
  | some (some p, s) => .run s (⟨p, name, role⟩ :: out)

/-- One call; `calloc` gives an address that is not in use. -/
def step : Calls → Call → Option Calls
  | .run s out, .add name nFiles role packetSize calloc =>
      if calloc ∈ s.live then none
      else some (associate name role out
        (s.afiAdd name nFiles role.status packetSize (some calloc)))
  | .run s out, .get name => some (associate name .sender out (s.afiGet name true))
  | .run s out, .disassociate a =>
      if a ∈ out then
        match s.afiDisassociate a.role.status a.fi with
        | none => some .crashed
        | some (_, s) => some (.run s (out.erase a))
      else none
  | .crashed, _ => none

/-- All sequences of calls after `afi_init`. -/
def system : System Calls Call :=
  .ofNext (fun c => ∃ s, s.IsInit ∧ c = .run s []) step

end Calls

/-! ## The law -/

/-- The outstanding associations of a name. -/
def outstanding (name : String) (out : List Association) : ℕ := out.countP (·.name = name)

/-- Those of them that record. -/
def recorders (name : String) (out : List Association) : ℕ :=
  out.countP fun a => a.name = name ∧ a.role = .recorder

/-- The entries of the list are the indices with clients. -/
structure Registered (s : Registry) (out : List Association) (l : List ℕ) : Prop where
  lists : s.Lists l
  distinct : ∀ p ∈ l, ∀ q ∈ l, (s.entry p).filename = (s.entry q).filename → p = q
  listed : ∀ name, (∃ p ∈ l, (s.entry p).filename = name) ↔ 0 < outstanding name out
  counter : ∀ p ∈ l, (s.entry p).associations = outstanding (s.entry p).filename out
  recording : ∀ p ∈ l, (s.entry p).recording = true ↔ recorders (s.entry p).filename out = 1
  oneRecorder : ∀ name, recorders name out ≤ 1

/-- What holds after every call. -/
def Calls.Registered : Calls → Prop
  | .crashed => False
  | .run s out => (∃ l, ActiveFileIndex.Registered s out l) ∧
      -- a recorder that is refused changes nothing
      (∀ name nFiles packetSize calloc s',
        s.afiAdd name nFiles afiRecord packetSize (some calloc) = some (none, s') → s' = s) ∧
      -- and what a client gives up is the only index that changes
      ∀ a ∈ out, ∀ r s', s.afiDisassociate a.role.status a.fi = some (r, s') → ∀ l, s.Lists l →
        ∃ l', s'.Lists l' ∧ ∀ q ∈ l, q ≠ a.fi → q ∈ l' ∧ s'.entry q = s.entry q

/-! ## The invariant -/

/-- The associations with the index at `p`. -/
def holders (p : ℕ) (out : List Association) : ℕ := out.countP (·.fi = p)

/-- Those of them that record. -/
def recordingHolders (p : ℕ) (out : List Association) : ℕ :=
  out.countP fun a => a.fi = p ∧ a.role = .recorder

/-- The list and its clients, by the addresses of the indices. -/
structure Held (s : Registry) (out : List Association) (l : List ℕ) : Prop where
  lists : s.Lists l
  distinct : ∀ p ∈ l, ∀ q ∈ l, (s.entry p).filename = (s.entry q).filename → p = q
  held : ∀ a ∈ out, a.fi ∈ l ∧ (s.entry a.fi).filename = a.name
  counter : ∀ p ∈ l, (s.entry p).associations = holders p out
  recording : ∀ p ∈ l, recordingHolders p out ≤ if (s.entry p).recording then 1 else 0

/-- Every index of the list has clients, and a recorder if it says so. -/
structure Attended (s : Registry) (out : List Association) (l : List ℕ) : Prop where
  held : Held s out l
  pos : ∀ p ∈ l, 0 < holders p out
  recorder : ∀ p ∈ l, (s.entry p).recording = true → 0 < recordingHolders p out

/-- The program runs on with such a list. -/
def Calls.Attended (c : Calls) : Prop :=
  ∃ s out l, c = .run s out ∧ ActiveFileIndex.Attended s out l

section Held

variable {s s' : Registry} {out : List Association} {l : List ℕ} {p q : ℕ} {name : String}
  {role : Role} {a : Association}

theorem holders_cons : holders q (⟨p, name, role⟩ :: out) =
    holders q out + if p = q then 1 else 0 := by
  unfold holders
  rw [List.countP_cons]
  simp

theorem recordingHolders_cons : recordingHolders q (⟨p, name, role⟩ :: out) =
    recordingHolders q out + if p = q ∧ role = .recorder then 1 else 0 := by
  unfold recordingHolders
  rw [List.countP_cons]
  simp

theorem holders_erase (h : a ∈ out) : holders q out =
    holders q (out.erase a) + if a.fi = q then 1 else 0 := by
  unfold holders
  rw [(List.perm_cons_erase h).countP_eq, List.countP_cons]
  simp

theorem recordingHolders_erase (h : a ∈ out) : recordingHolders q out =
    recordingHolders q (out.erase a) + if a.fi = q ∧ a.role = .recorder then 1 else 0 := by
  unfold recordingHolders
  rw [(List.perm_cons_erase h).countP_eq, List.countP_cons]
  simp

theorem recordingHolders_le (p : ℕ) (out : List Association) :
    recordingHolders p out ≤ holders p out := by
  unfold recordingHolders holders
  refine List.countP_mono_left fun a _ h => ?_
  exact decide_eq_true (of_decide_eq_true h).1

section Associate

variable {f : Entry → Entry}

theorem Registry.modify_entry (s : Registry) (p q : ℕ) (f : Entry → Entry) :
    (s.modify p f).entry q = if p = q then f (s.entry q) else s.entry q := by
  by_cases hq : p = q
  · subst hq
    rw [if_pos rfl, Registry.modify_self]
  · rw [if_neg hq, Registry.modify_of_ne fun heq => hq heq.symm]

theorem Registry.modify_filename (hf : ∀ e, (f e).filename = e.filename) (q : ℕ) :
    ((s.modify p f).entry q).filename = (s.entry q).filename := by
  rw [Registry.modify_entry]
  split
  · exact hf _
  · rfl

/-- An index has one client more. -/
theorem Held.associate (h : Held s out l) (hp : p ∈ l) (hname : (s.entry p).filename = name)
    (hone : ¬ (role = .recorder ∧ (s.entry p).recording = true))
    (hf : ∀ e, (f e).filename = e.filename ∧ (f e).associations = e.associations + 1 ∧
      (f e).recording = (e.recording || role = .recorder)) :
    Held (s.modify p f) (⟨p, name, role⟩ :: out) l := by
  have hfilename : ∀ q, ((s.modify p f).entry q).filename = (s.entry q).filename :=
    Registry.modify_filename fun e => (hf e).1
  refine ⟨h.lists.modify, fun q hq r hr => ?_, fun b hb => ?_, fun q hq => ?_, fun q hq => ?_⟩
  · rw [hfilename, hfilename]
    exact h.distinct q hq r hr
  · rw [hfilename]
    rcases List.mem_cons.mp hb with rfl | hb
    · exact ⟨hp, hname⟩
    · exact h.held b hb
  · rw [Registry.modify_entry, holders_cons, ← h.counter q hq]
    split
    · exact (hf _).2.1
    · rfl
  · have hrecording := h.recording q hq
    rw [Registry.modify_entry, recordingHolders_cons]
    by_cases hpq : p = q
    · subst hpq
      rw [if_pos rfl, (hf _).2.2]
      cases role with
      | sender => simpa using hrecording
      | recorder =>
          have hclear : (s.entry p).recording = false := by
            rw [← Bool.not_eq_true]
            exact fun hrec => hone ⟨rfl, hrec⟩
          simpa [hclear] using hrecording
    · have hpq' : ¬ (p = q ∧ role = .recorder) := fun hc => hpq hc.1
      rw [if_neg hpq, if_neg hpq', Nat.add_zero]
      exact hrecording

theorem Attended.associate (h : Attended s out l) (hp : p ∈ l)
    (hname : (s.entry p).filename = name)
    (hone : ¬ (role = .recorder ∧ (s.entry p).recording = true))
    (hf : ∀ e, (f e).filename = e.filename ∧ (f e).associations = e.associations + 1 ∧
      (f e).recording = (e.recording || role = .recorder)) :
    Attended (s.modify p f) (⟨p, name, role⟩ :: out) l where
  held := h.held.associate hp hname hone hf
  pos q hq := by
    rw [holders_cons]
    exact Nat.add_pos_left (h.pos q hq) _
  recorder q hq := by
    rw [Registry.modify_entry, recordingHolders_cons]
    by_cases hpq : p = q
    · subst hpq
      rw [if_pos rfl, (hf _).2.2]
      intro hrec
      rcases (Bool.or_eq_true _ _).mp hrec with hrec | hrole
      · exact Nat.add_pos_left (h.recorder p hp hrec) _
      · rw [if_pos ⟨rfl, of_decide_eq_true hrole⟩]
        exact Nat.succ_pos _
    · rw [if_neg hpq]
      exact fun hrec => Nat.add_pos_left (h.recorder q hq hrec) _

end Associate

/-- A new index has one client. -/
theorem Held.create (h : Held s out l) (hp : p ∉ s.live)
    (hnew : ∀ q ∈ l, (s.entry q).filename ≠ name) (nFiles packetSize : ℕ)
    (hlists : s'.Lists (l ++ [p]))
    (hentry : s'.entry = Function.update s.entry p
      ⟨name, 1, ActiveFileIndex.afiAdd nFiles role.status packetSize⟩) :
    Held s' (⟨p, name, role⟩ :: out) (l ++ [p]) := by
  have hpl : p ∉ l := fun hmem => hp (h.lists.live p hmem)
  have hself : s'.entry p = ⟨name, 1, ActiveFileIndex.afiAdd nFiles role.status packetSize⟩ := by
    rw [hentry, Function.update_self]
  have hother : ∀ q ∈ l, s'.entry q = s.entry q := by
    intro q hq
    rw [hentry]
    exact Function.update_of_ne (by rintro rfl; exact hpl hq) _ _
  have hnone : holders p out = 0 := by
    unfold holders
    rw [List.countP_eq_zero]
    intro a ha hfi
    have hmem := (h.held a ha).1
    rw [of_decide_eq_true hfi] at hmem
    exact hpl hmem
  have hnoRecorder : recordingHolders p out = 0 := by
    have := recordingHolders_le p out
    omega
  -- what the list has of an index is said of the old ones and of the new one
  have hsplit : ∀ {P : ℕ → Prop}, (∀ q ∈ l, P q) → P p → ∀ q ∈ l ++ [p], P q := by
    intro P hold hnew q hq
    rcases List.mem_append.mp hq with hq | hq
    · exact hold q hq
    · rw [List.mem_singleton.mp hq]
      exact hnew
  have hne : ∀ q ∈ l, p ≠ q := by
    rintro q hq rfl
    exact hpl hq
  refine ⟨hlists, ?_, ?_, ?_, ?_⟩
  · refine hsplit (fun q hq => hsplit (fun r hr => ?_) ?_) (hsplit (fun r hr => ?_) fun _ => rfl)
    · rw [hother q hq, hother r hr]
      exact h.distinct q hq r hr
    · rw [hother q hq, hself]
      exact fun heq => absurd heq (hnew q hq)
    · rw [hother r hr, hself]
      exact fun heq => absurd heq.symm (hnew r hr)
  · intro a ha
    rcases List.mem_cons.mp ha with rfl | ha
    · exact ⟨by simp, by rw [hself]⟩
    · obtain ⟨hmem, hname⟩ := h.held a ha
      exact ⟨List.mem_append_left _ hmem, by rw [hother _ hmem, hname]⟩
  · refine hsplit (fun q hq => ?_) ?_
    · rw [holders_cons, if_neg (hne q hq), hother q hq]
      exact h.counter q hq
    · rw [holders_cons, if_pos rfl, hself, hnone]
  · refine hsplit (fun q hq => ?_) ?_
    · rw [recordingHolders_cons, if_neg fun hc => hne q hq hc.1, hother q hq]
      exact h.recording q hq
    · rw [recordingHolders_cons, hself, hnoRecorder]
      cases role <;> simp [Entry.recording, ActiveFileIndex.afiAdd, Role.status, has, afiRecord,
        afiSend]

theorem Attended.create (h : Attended s out l) (hp : p ∉ s.live)
    (hnew : ∀ q ∈ l, (s.entry q).filename ≠ name) (nFiles packetSize : ℕ)
    (hlists : s'.Lists (l ++ [p]))
    (hentry : s'.entry = Function.update s.entry p
      ⟨name, 1, ActiveFileIndex.afiAdd nFiles role.status packetSize⟩) :
    Attended s' (⟨p, name, role⟩ :: out) (l ++ [p]) where
  held := h.held.create hp hnew nFiles packetSize hlists hentry
  pos q hq := by
    rw [holders_cons]
    rcases List.mem_append.mp hq with hq | hq
    · exact Nat.add_pos_left (h.pos q hq) _
    · rw [List.mem_singleton.mp hq, if_pos rfl]
      exact Nat.succ_pos _
  recorder q hq := by
    rw [recordingHolders_cons]
    rcases List.mem_append.mp hq with hql | hq
    · have hne : q ≠ p := by
        rintro rfl
        exact hp (h.held.lists.live q hql)
      rw [hentry, Function.update_of_ne hne]
      exact fun hrec => Nat.add_pos_left (h.recorder q hql hrec) _
    · rw [List.mem_singleton.mp hq, hentry, Function.update_self]
      cases role <;> simp [Entry.recording, ActiveFileIndex.afiAdd, Role.status, has, afiRecord,
        afiSend]

/-- An index has one client less. -/
theorem Held.dissociate (h : Held s out l) (ha : a ∈ out) :
    Held (s.modify a.fi (dissociated a.role)) (out.erase a) l := by
  have hfilename : ∀ q, ((s.modify a.fi (dissociated a.role)).entry q).filename =
      (s.entry q).filename := Registry.modify_filename fun e => rfl
  refine ⟨h.lists.modify, fun q hq r hr => ?_, fun b hb => ?_, fun q hq => ?_, fun q hq => ?_⟩
  · rw [hfilename, hfilename]
    exact h.distinct q hq r hr
  · rw [hfilename]
    exact h.held b (List.mem_of_mem_erase hb)
  · have herase : holders q out = _ := holders_erase ha
    have hcounter := h.counter q hq
    rw [Registry.modify_entry]
    by_cases hq' : a.fi = q
    · rw [if_pos hq'] at herase ⊢
      rw [Registry.dissociated_associations]
      omega
    · rw [if_neg hq'] at herase ⊢
      omega
  · have herase : recordingHolders q out = _ := recordingHolders_erase ha
    have hrecording := h.recording q hq
    rw [Registry.modify_entry]
    by_cases hq' : a.fi = q
    · rw [if_pos hq', Registry.dissociated_recording]
      by_cases hrole : a.role = .recorder
      · -- it was the one recorder
        rw [if_pos ⟨hq', hrole⟩] at herase
        have hnone : recordingHolders q (out.erase a) = 0 := by
          split at hrecording <;> omega
        rw [hnone]
        exact Nat.zero_le _
      · rw [if_neg fun hc => hrole hc.2, Nat.add_zero] at herase
        rw [← herase]
        simpa [hrole] using hrecording
    · rw [if_neg fun hc => hq' hc.1, Nat.add_zero] at herase
      rw [if_neg hq', ← herase]
      exact hrecording

theorem Attended.dissociate (h : Attended s out l) (ha : a ∈ out)
    (hmore : (s.entry a.fi).associations - 1 ≠ 0) :
    Attended (s.modify a.fi (dissociated a.role)) (out.erase a) l where
  held := h.held.dissociate ha
  pos q hq := by
    have herase : holders q out = _ := holders_erase ha
    have hpos := h.pos q hq
    have hcounter := h.held.counter q hq
    by_cases hq' : a.fi = q
    · subst hq'
      rw [if_pos rfl] at herase
      omega
    · rw [if_neg hq'] at herase
      omega
  recorder q hq := by
    have herase : recordingHolders q out = _ := recordingHolders_erase ha
    have hrecorder := h.recorder q hq
    rw [Registry.modify_entry]
    by_cases hq' : a.fi = q
    · subst hq'
      rw [if_pos rfl, Registry.dissociated_recording]
      intro hrec
      obtain ⟨hold, hnot⟩ := (Bool.and_eq_true _ _).mp hrec
      have hrole : a.role ≠ .recorder := fun hrole => by simp [hmore, hrole] at hnot
      rw [if_neg fun hc => hrole hc.2, Nat.add_zero] at herase
      exact herase ▸ hrecorder hold
    · rw [if_neg fun hc => hq' hc.1, Nat.add_zero] at herase
      rw [if_neg hq', ← herase]
      exact hrecorder

/-- An index without clients is taken off the list. -/
theorem Held.close (h : Held s out l) (hnone : holders p out = 0)
    (hlists : s'.Lists (l.erase p)) (hentry : s'.entry = s.entry) :
    Held s' out (l.erase p) := by
  have hmem : ∀ q ∈ l.erase p, q ∈ l := fun q => List.mem_of_mem_erase
  refine ⟨hlists, fun q hq r hr => ?_, fun b hb => ?_, fun q hq => ?_, fun q hq => ?_⟩
  · rw [hentry]
    exact h.distinct q (hmem q hq) r (hmem r hr)
  · obtain ⟨hb', hname⟩ := h.held b hb
    have hne : b.fi ≠ p := by
      intro heq
      unfold holders at hnone
      rw [List.countP_eq_zero] at hnone
      exact hnone b hb (decide_eq_true heq)
    rw [hentry]
    exact ⟨h.lists.nodup.mem_erase_iff.mpr ⟨hne, hb'⟩, hname⟩
  · rw [hentry]
    exact h.counter q (hmem q hq)
  · rw [hentry]
    exact h.recording q (hmem q hq)

theorem holders_pos (ha : a ∈ out) : 0 < holders a.fi out :=
  List.countP_pos_iff.mpr ⟨a, ha, decide_eq_true rfl⟩

/-- **`afi_disassociate` under its lock**, by a client. -/
theorem Held.afiDisassociateLocked (h : Held s out l) (ha : a ∈ out) :
    s.afiDisassociateLocked a.role.status a.fi =
      some (if (s.entry a.fi).associations - 1 = 0 then .close
        else if a.role = .recorder then .wakeUp else .return,
        s.modify a.fi (dissociated a.role)) := by
  obtain ⟨hmem, -⟩ := h.held a ha
  have hpos : 0 < (s.entry a.fi).associations := by
    rw [h.counter _ hmem]
    exact holders_pos ha
  refine Registry.afiDisassociateLocked_eq (h.lists.live _ hmem) hpos fun hrole => ?_
  have hrecording := h.recording _ hmem
  have hone : 0 < recordingHolders a.fi out :=
    List.countP_pos_iff.mpr ⟨a, ha, decide_eq_true ⟨rfl, hrole⟩⟩
  by_contra hclear
  rw [if_neg hclear] at hrecording
  omega

/-! ## The calls -/

/-- `afi_add` of a client. -/
theorem Attended.afiAdd (h : Attended s out l) (hp : p ∉ s.live) (name : String) (nFiles : ℕ)
    (role : Role) (packetSize : ℕ) :
    (Calls.associate name role out
      (s.afiAdd name nFiles role.status packetSize (some p))).Attended := by
  have hlists := h.held.lists
  unfold Registry.afiAdd
  rcases hlists.find_cases name with ⟨q, hq, hfind, hname⟩ | ⟨hfind, hnew⟩
  · have hlookup : s.afiAddLookup name nFiles role.status packetSize (some p) =
        some (.found q, s) := by
      unfold Registry.afiAddLookup
      rw [hfind]
    rw [hlookup]
    dsimp only
    rw [Registry.afiAddAssociate_eq (hlists.live q hq)]
    by_cases hrefused : role = .recorder ∧ (s.entry q).recording = true
    · rw [if_pos hrefused]
      exact ⟨s, out, l, rfl, h⟩
    · rw [if_neg hrefused]
      refine ⟨_, _, l, rfl, h.associate hq hname hrefused fun e => ⟨rfl, rfl, ?_⟩⟩
      exact Registry.associated_recording
  · obtain ⟨s', hcreate, hlists', -, hentry⟩ :=
      hlists.create hfind hp nFiles role.status packetSize
    rw [hcreate]
    exact ⟨s', _, _, rfl, h.create hp hnew nFiles packetSize hlists' hentry⟩

/-- `afi_get` of a client. -/
theorem Attended.afiGet (h : Attended s out l) (name : String) :
    (Calls.associate name .sender out (s.afiGet name true)).Attended := by
  unfold Registry.afiGet
  rcases h.held.lists.find_cases name with ⟨q, hq, hfind, hname⟩ | ⟨hfind, -⟩
  · rw [hfind]
    refine ⟨_, _, l, rfl, h.associate hq hname (by simp) fun e => ⟨rfl, rfl, ?_⟩⟩
    simp [Entry.recording]
  · rw [hfind]
    exact ⟨s, out, l, rfl, h⟩

/-- **`afi_disassociate` of a client** changes no other index. -/
theorem Attended.afiDisassociate (h : Attended s out l) (ha : a ∈ out) :
    ∃ r s' l', s.afiDisassociate a.role.status a.fi = some (r, s') ∧
      Attended s' (out.erase a) l' ∧ ∀ q ∈ l, q ≠ a.fi → q ∈ l' ∧ s'.entry q = s.entry q := by
  obtain ⟨hmem, -⟩ := h.held.held a ha
  have hother : ∀ q, q ≠ a.fi → (s.modify a.fi (dissociated a.role)).entry q = s.entry q :=
    fun q hq => Registry.modify_of_ne hq
  have hheld := h.held.dissociate ha
  unfold Registry.afiDisassociate
  rw [h.held.afiDisassociateLocked ha]
  by_cases hlast : (s.entry a.fi).associations - 1 = 0
  · rw [if_pos hlast]
    obtain ⟨s', hclose, hlists, -, hentry⟩ := hheld.lists.close hmem
    have hnone : holders a.fi (out.erase a) = 0 := by
      rw [← hheld.counter a.fi hmem, Registry.modify_self, Registry.dissociated_associations]
      exact hlast
    have hkept : ∀ q ∈ l.erase a.fi, q ≠ a.fi ∧ q ∈ l := fun q =>
      (h.held.lists.nodup.mem_erase_iff).mp
    refine ⟨_, s', l.erase a.fi, hclose, ⟨hheld.close hnone hlists hentry, fun q hq => ?_,
      fun q hq => ?_⟩, fun q hq hne => ⟨(h.held.lists.nodup.mem_erase_iff).mpr ⟨hne, hq⟩, ?_⟩⟩
    · obtain ⟨hne, hql⟩ := hkept q hq
      have herase : holders q out = _ := holders_erase ha
      rw [if_neg (Ne.symm hne), Nat.add_zero] at herase
      exact herase ▸ h.pos q hql
    · obtain ⟨hne, hql⟩ := hkept q hq
      have herase : recordingHolders q out = _ := recordingHolders_erase ha
      rw [if_neg fun hc => hne hc.1.symm, Nat.add_zero] at herase
      rw [hentry, hother q hne]
      exact herase ▸ h.recorder q hql
    · rw [hentry, hother q hne]
  · rw [if_neg hlast]
    have hattended := h.dissociate ha hlast
    by_cases hrole : a.role = .recorder
    · rw [if_pos hrole]
      refine ⟨0, _, l, ?_, hattended, fun q hq hne => ⟨hq, hother q hne⟩⟩
      show (Registry.afiWakeUp _ _).map _ = _
      unfold Registry.afiWakeUp
      rw [Registry.deref_of_mem (hheld.lists.live _ hmem)]
      rfl
    · rw [if_neg hrole]
      exact ⟨0, _, l, rfl, hattended, fun q hq hne => ⟨hq, hother q hne⟩⟩

/-- **Every call keeps the list and its clients.** -/
theorem Attended.step {c' : Calls} {call : Call} (h : Attended s out l)
    (hstep : Calls.step (.run s out) call = some c') : c'.Attended := by
  cases call with
  | add name nFiles role packetSize calloc =>
      change (if calloc ∈ s.live then none else some _) = some c' at hstep
      by_cases hcalloc : calloc ∈ s.live
      · rw [if_pos hcalloc] at hstep
        cases hstep
      · rw [if_neg hcalloc] at hstep
        obtain rfl := Option.some.inj hstep
        exact h.afiAdd hcalloc name nFiles role packetSize
  | get name =>
      obtain rfl := Option.some.inj hstep
      exact h.afiGet name
  | disassociate a =>
      change (if a ∈ out then _ else none) = some c' at hstep
      by_cases ha : a ∈ out
      · rw [if_pos ha] at hstep
        obtain ⟨r, s', l', heq, hattended, -⟩ := h.afiDisassociate ha
        rw [heq] at hstep
        exact ⟨s', _, l', (Option.some.inj hstep).symm, hattended⟩
      · rw [if_neg ha] at hstep
        cases hstep

/-! ## The law of the list -/

/-- The clients of an index are those of its name. -/
theorem Held.outstanding_eq (h : Held s out l) (hp : p ∈ l) :
    outstanding (s.entry p).filename out = holders p out ∧
      recorders (s.entry p).filename out = recordingHolders p out := by
  have hiff : ∀ a ∈ out, a.name = (s.entry p).filename ↔ a.fi = p := by
    intro a ha
    obtain ⟨hmem, hname⟩ := h.held a ha
    constructor
    · intro heq
      exact h.distinct _ hmem _ hp (hname.trans heq)
    · rintro rfl
      exact hname.symm
  constructor
  · exact List.countP_congr fun a ha => by simp [hiff a ha]
  · exact List.countP_congr fun a ha => by simp [hiff a ha]

theorem recorders_le (name : String) (out : List Association) :
    recorders name out ≤ outstanding name out := by
  refine List.countP_mono_left fun a _ h => ?_
  exact decide_eq_true (of_decide_eq_true h).1

theorem Attended.recorders_eq (h : Attended s out l) (hp : p ∈ l) :
    recorders (s.entry p).filename out = if (s.entry p).recording then 1 else 0 := by
  have hle := h.held.recording p hp
  have hpos := h.recorder p hp
  rw [(h.held.outstanding_eq hp).2]
  cases hrec : (s.entry p).recording with
  | true =>
      rw [hrec] at hle
      exact le_antisymm hle (hpos hrec)
  | false =>
      rw [hrec] at hle
      exact Nat.le_zero.mp hle

theorem Attended.registered (h : Attended s out l) : Registered s out l := by
  have hlisted : ∀ name, (∃ p ∈ l, (s.entry p).filename = name) ↔ 0 < outstanding name out := by
    intro name
    constructor
    · rintro ⟨p, hp, rfl⟩
      rw [(h.held.outstanding_eq hp).1]
      exact h.pos p hp
    · intro hpos
      obtain ⟨a, ha, hname⟩ := List.countP_pos_iff.mp hpos
      obtain ⟨hmem, hfilename⟩ := h.held.held a ha
      exact ⟨a.fi, hmem, hfilename.trans (of_decide_eq_true hname)⟩
  refine ⟨h.held.lists, h.held.distinct, hlisted, fun p hp => ?_, fun p hp => ?_,
    fun name => ?_⟩
  · rw [h.held.counter p hp, (h.held.outstanding_eq hp).1]
  · rw [h.recorders_eq hp]
    split <;> simp [*]
  · rcases Nat.eq_zero_or_pos (outstanding name out) with hzero | hpos
    · have hle := recorders_le name out
      omega
    · obtain ⟨p, hp, rfl⟩ := (hlisted name).mpr hpos
      rw [h.recorders_eq hp]
      split <;> omega

end Held

section Results

variable {s s' : Registry} {name : String} {nFiles packetSize p : ℕ} {c : Calls}

/-- A recorder that is refused changes nothing. -/
theorem Registry.afiAddAssociate_refused
    (h : s.afiAddAssociate afiRecord p = some (none, s')) : s' = s := by
  unfold Registry.afiAddAssociate at h
  cases hderef : s.deref p with
  | none =>
      rw [hderef] at h
      cases h
  | some e =>
      rw [hderef] at h
      dsimp only at h
      rw [if_pos (show has afiRecord afiRecord = true by decide)] at h
      split at h
      · exact (congrArg Prod.snd (Option.some.inj h)).symm
      · cases h

/-- `afi_add` only returns `NULL` for a recorder that it refuses. -/
theorem Registry.afiAdd_refused
    (h : s.afiAdd name nFiles afiRecord packetSize (some p) = some (none, s')) : s' = s := by
  unfold Registry.afiAdd Registry.afiAddLookup at h
  cases hfind : s.find name with
  | none =>
      rw [hfind] at h
      cases h
  | some found =>
      rw [hfind] at h
      cases found with
      | some q => exact Registry.afiAddAssociate_refused h
      | none =>
          dsimp only at h
          cases hadd : Registry.addToListMutexFree p { (s.modify p fun _ =>
            ⟨name, 1, ActiveFileIndex.afiAdd nFiles afiRecord packetSize⟩).setNext p none with
              live := insert p s.live } with
          | none =>
              rw [hadd] at h
              cases h
          | some s₁ =>
              rw [hadd] at h
              cases h

/-- **The law of the list** holds after every call of every sequence of calls. -/
theorem registered_of_reachable (h : Calls.system.Reachable c) : c.Registered := by
  have hall : c.Attended := by
    refine h.invariant ?_ ?_
    · rintro c ⟨s, hinit, rfl⟩
      refine ⟨s, [], [], rfl, ⟨hinit.lists, ?_, ?_, ?_, ?_⟩, ?_, ?_⟩ <;>
        exact fun _ hmem => absurd hmem List.not_mem_nil
    · rintro c call c' ⟨s, out, l, rfl, hattended⟩ hstep
      exact hattended.step hstep
  obtain ⟨s, out, l, rfl, hattended⟩ := hall
  refine ⟨⟨l, hattended.registered⟩, fun _ _ _ _ _ => Registry.afiAdd_refused, ?_⟩
  intro a ha r s' heq l₁ hlists
  obtain rfl := hlists.unique hattended.held.lists
  obtain ⟨r', s₂, l', heq', hattended', hothers⟩ := hattended.afiDisassociate ha
  obtain ⟨rfl, rfl⟩ : r = r' ∧ s' = s₂ := by
    rw [heq] at heq'
    cases heq'
    exact ⟨rfl, rfl⟩
  exact ⟨l', hattended'.held.lists, hothers⟩

end Results

/-- Nothing is recorded or sent yet. -/
def noIndex : Registry := ⟨none, fun _ => none, fun _ => ⟨"", 0, afiAdd 0 0 0⟩, ∅⟩

/-- A recording starts, somebody sends it, another one is refused, and the recorder
leaves first. -/
def recordingSent : Option Calls :=
  System.runFrom Calls.step (.run noIndex [])
    [.add "first" 0 .recorder 5008 1, .add "second" 7 .sender 0 2, .add "first" 3 .sender 0 3,
      .add "first" 0 .recorder 5008 3, .disassociate ⟨1, "first", .recorder⟩]

theorem registered_of_reachable_sent : ∃ c, recordingSent = some c ∧ c.Registered := by
  obtain ⟨c, hc⟩ := Option.isSome_iff_exists.mp (rfl : recordingSent.isSome = true)
  have hinit : Calls.system.Reachable (.run noIndex []) := .init ⟨noIndex, ⟨rfl, rfl⟩, rfl⟩
  exact ⟨c, hc, registered_of_reachable (hinit.runFrom hc)⟩

end VlbiStreamer.ActiveFileIndex
