import Mathlib.Data.Fintype.Basic
import VlbiStreamer.ActiveFileIndex.Associations

/-!
# The life of a file index under its clients

Any number of clients run `afi_add`, `afi_get` and `afi_disassociate`.  A step is one
region of the code, of one client: the section under the main lock, the section under
the lock of the index, or the close after the last association, which takes no lock.

`afi_add` gives up the main lock before it associates, and `afi_disassociate` closes an
index after it has given up its lock, so that an index can be freed under a client
that has just found it (`found_index_is_freed`).  `safe_of_undisturbed` is what is left:
every index outlives its clients as long as nobody comes in between.
-/

namespace VlbiStreamer.ActiveFileIndex

open Library

/-- What a client is doing. -/
inductive Doing where
  | idle
  /-- It has called `afi_add`. -/
  | adding (name : String) (nFiles : ℕ) (role : Role) (packetSize : ℕ)
  /-- `afi_add` has found an index and is about to associate with it. -/
  | associating (p : ℕ) (name : String) (role : Role)
  | holding (a : Association)
  /-- `afi_disassociate` is about to close the index. -/
  | closing (p : ℕ)
  /-- `afi_disassociate` is about to wake the senders up. -/
  | waking (p : ℕ)
  deriving DecidableEq

/-- The association a client holds. -/
def Doing.held : Doing → Option Association
  | .holding a => some a
  | _ => none

/-- The index a client is going to touch. -/
def Doing.pointer : Doing → Option ℕ
  | .associating p _ _ => some p
  | .holding a => some a.fi
  | .closing p => some p
  | .waking p => some p
  | _ => none

/-- The next region that a client runs. -/
inductive Region where
  /-- It calls `afi_add`. -/
  | call (name : String) (nFiles : ℕ) (role : Role) (packetSize : ℕ)
  /-- `afi_add` under the main lock. -/
  | lookUp (calloc : Option ℕ)
  /-- `afi_add` under the lock of the index. -/
  | associate
  /-- `afi_get(name, true)` under the main lock. -/
  | get (name : String)
  /-- Any other function on the index that it holds. -/
  | use
  /-- `afi_disassociate` under the lock of the index. -/
  | leave
  /-- `close_file_index_mutex_free`. -/
  | close
  /-- `afi_wake_up`. -/
  | wakeUp

/-- The list and its clients. -/
structure Clients (κ : Type) where
  registry : Registry
  doing : κ → Doing

/-- The clients, or a program that has crashed. -/
inductive Shared (κ : Type) where
  | run (w : Clients κ)
  | crashed

section Steps

variable {κ : Type} [DecidableEq κ]

/-- A region was run; `none` is a crash. -/
def Clients.after (w : Clients κ) (c : κ) {α : Type} (doing : α → Doing) :
    Option (α × Registry) → Shared κ
  | none => .crashed
  | some (r, s) => .run ⟨s, Function.update w.doing c (doing r)⟩

/-- One region, of client `c`; `calloc` gives an address that is not in use. -/
def Clients.step (w : Clients κ) (c : κ) (region : Region) : Option (Shared κ) :=
  let s := w.registry
  match w.doing c, region with
  | .idle, .call name nFiles role packetSize =>
      some (w.after c (fun _ => .adding name nFiles role packetSize) (some ((), s)))
  | .adding name nFiles role packetSize, .lookUp calloc =>
      if ∀ p ∈ calloc, p ∉ s.live then
        some (w.after c (fun
            | .found p => .associating p name role
            | .created p => .holding ⟨p, name, role⟩
            | .outOfMemory => .idle)
          (s.afiAddLookup name nFiles role.status packetSize calloc))
      else none
  | .associating p name role, .associate =>
      some (w.after c (fun
          | some p => .holding ⟨p, name, role⟩
          | none => .idle)
        (s.afiAddAssociate role.status p))
  | .idle, .get name =>
      some (w.after c (fun
          | some p => .holding ⟨p, name, .sender⟩
          | none => .idle)
        (s.afiGet name true))
  | .holding a, .use =>
      some (w.after c (fun _ => .holding a) ((s.deref a.fi).map fun _ => ((), s)))
  | .holding a, .leave =>
      some (w.after c (fun
          | .close => .closing a.fi
          | .wakeUp => .waking a.fi
          | .return => .idle)
        (s.afiDisassociateLocked a.role.status a.fi))
  | .closing p, .close => some (w.after c (fun _ => .idle) (s.closeFileIndexMutexFree p))
  | .waking p, .wakeUp =>
      some (w.after c (fun _ => .idle) ((s.afiWakeUp p).map fun s => ((), s)))
  | _, _ => none

def Shared.step : Shared κ → κ × Region → Option (Shared κ)
  | .run w, (c, region) => w.step c region
  | .crashed, _ => none

/-- All interleavings of the clients after `afi_init`. -/
def Shared.system (κ : Type) [DecidableEq κ] : System (Shared κ) (κ × Region) :=
  .ofNext (fun sh => ∃ s : Registry, s.IsInit ∧ sh = .run ⟨s, fun _ => .idle⟩) Shared.step

end Steps

/-! ## What is to hold -/

namespace Clients

variable {κ : Type}

/-- The next region of a client links an index in. -/
def Links (w : Clients κ) (c : κ) : Prop :=
  ∃ name nFiles role packetSize, w.doing c = .adding name nFiles role packetSize ∧
    w.registry.find name = some none

/-- The next region of a client unlinks an index. -/
def Unlinks (w : Clients κ) (c : κ) : Prop := ∃ p, w.doing c = .closing p

/-- Two clients may modify the list at the same time: the one that unlinks an index
takes no lock. -/
def Overlap (w : Clients κ) : Prop :=
  ∃ c d, c ≠ d ∧ w.Unlinks c ∧ (w.Unlinks d ∨ w.Links d)

/-- Every index outlives those who use it. -/
structure Safe [Fintype κ] (w : Clients κ) : Prop where
  alive : ∀ c p, (w.doing c).pointer = some p → p ∈ w.registry.live
  counter : ∃ l, w.registry.Lists l ∧ ∀ p ∈ l, (w.registry.entry p).associations =
    (Finset.univ.filter fun c => (w.doing c).held.map Association.fi = some p).card
  noOverlap : ¬ w.Overlap

/-- Nobody comes in between: a client does not close an index that another client has
got, does not give up the last association while another one is about to change the
list, and does not add a name while an index is being closed. -/
def Undisturbed (w : Clients κ) (c : κ) : Region → Prop
  | .call name _ _ _ => w.registry.find name = some none → ∀ d, ¬ w.Unlinks d
  | .leave => ∀ a, w.doing c = .holding a → (w.registry.entry a.fi).associations = 1 →
      ∀ d, d ≠ c → ¬ w.Unlinks d ∧ ¬ w.Links d
  | .close => ∀ p, w.doing c = .closing p → ∀ d, d ≠ c → (w.doing d).pointer ≠ some p
  | _ => True

end Clients

/-- What holds in a state of the clients. -/
def Shared.Safe {κ : Type} [Fintype κ] : Shared κ → Prop
  | .run w => w.Safe
  | .crashed => False

/-- The steps that nobody disturbs. -/
def Shared.Undisturbed {κ : Type} : Shared κ → κ × Region → Prop
  | .run w, (c, region) => w.Undisturbed c region
  | .crashed, _ => True

/-! ## The clients as a list of associations -/

section Out

variable {κ : Type} [Fintype κ] {w : Clients κ} {s s' : Registry} {out out' : List Association}
  {l : List ℕ} {c : κ} {d : Doing} {p : ℕ}

/-- The associations that the clients hold. -/
noncomputable def outOf (doing : κ → Doing) : List Association :=
  Finset.univ.toList.filterMap fun c => (doing c).held

theorem mem_outOf {doing : κ → Doing} {a : Association} :
    a ∈ outOf doing ↔ ∃ c, doing c = .holding a := by
  unfold outOf
  rw [List.mem_filterMap]
  constructor
  · rintro ⟨c, -, hc⟩
    refine ⟨c, ?_⟩
    cases hdoing : doing c <;> rw [hdoing] at hc <;> cases hc
    rfl
  · rintro ⟨c, hc⟩
    exact ⟨c, Finset.mem_toList.mpr (Finset.mem_univ c), by rw [hc]; rfl⟩

/-- The number of clients of an index. -/
theorem holders_outOf (doing : κ → Doing) (p : ℕ) : holders p (outOf doing) =
    (Finset.univ.filter fun c => (doing c).held.map Association.fi = some p).card := by
  unfold holders outOf
  rw [List.countP_filterMap, Finset.card_def, Finset.filter_val, ← Multiset.countP_eq_card_filter,
    ← Finset.coe_toList, Multiset.coe_countP]
  refine List.countP_congr fun c _ => ?_
  cases (doing c).held <;> simp

variable [DecidableEq κ]

/-- One client does something else. -/
theorem outOf_update (doing : κ → Doing) (c : κ) (d : Doing) :
    ∃ rest, (outOf doing).Perm ((doing c).held.toList ++ rest) ∧
      (outOf (Function.update doing c d)).Perm (d.held.toList ++ rest) := by
  have hsplit : (Finset.univ : Finset κ).toList.Perm (c :: (Finset.univ.erase c).toList) := by
    rw [← Finset.insert_erase (Finset.mem_univ c)]
    refine (Finset.toList_insert (Finset.notMem_erase c _)).trans ?_
    rw [Finset.erase_insert (Finset.notMem_erase c _)]
  have hcons : ∀ doing' : κ → Doing, (outOf doing').Perm ((doing' c).held.toList ++
      (Finset.univ.erase c).toList.filterMap fun c => (doing' c).held) := by
    intro doing'
    refine (hsplit.filterMap _).trans ?_
    rw [List.filterMap_cons]
    cases (doing' c).held with
    | none => exact .refl _
    | some a => exact .refl _
  refine ⟨_, hcons doing, ?_⟩
  have hrest : (Finset.univ.erase c).toList.filterMap
      (fun e => (Function.update doing c d e).held) =
      (Finset.univ.erase c).toList.filterMap fun e => (doing e).held := by
    refine List.filterMap_congr fun e he => ?_
    have hne : e ≠ c := Finset.ne_of_mem_erase (Finset.mem_toList.mp he)
    rw [Function.update_of_ne hne]
  have hperm := hcons (Function.update doing c d)
  rw [Function.update_self, hrest] at hperm
  exact hperm

/-- The order of the associations does not matter. -/
theorem Held.perm (h : Held s out l) (hperm : out.Perm out') : Held s out' l where
  lists := h.lists
  distinct := h.distinct
  held a ha := h.held a (hperm.mem_iff.mpr ha)
  counter p hp := (h.counter p hp).trans (hperm.countP_eq _)
  recording p hp := by
    have hcount : recordingHolders p out = recordingHolders p out' := hperm.countP_eq _
    rw [← hcount]
    exact h.recording p hp

end Out

/-! ## The invariant -/

/-- The list, its clients, and what they are about to do. -/
structure Clients.Sound {κ : Type} [Fintype κ] (w : Clients κ) (l : List ℕ) : Prop where
  held : Held w.registry (outOf w.doing) l
  pointer : ∀ c p, (w.doing c).pointer = some p → p ∈ l
  name : ∀ c p name role, w.doing c = .associating p name role →
    (w.registry.entry p).filename = name
  noOverlap : ¬ w.Overlap

namespace Clients

section GoOn

variable {κ : Type} [DecidableEq κ] {w : Clients κ} {s' : Registry} {c : κ} {d : Doing}

/-- Client `c` goes on to `d`, with the list in `s'`. -/
def goOn (w : Clients κ) (c : κ) (d : Doing) (s' : Registry) : Clients κ :=
  ⟨s', Function.update w.doing c d⟩

theorem goOn_self : (w.goOn c d s').doing c = d := Function.update_self _ _ _

theorem goOn_of_ne {e : κ} (h : e ≠ c) : (w.goOn c d s').doing e = w.doing e :=
  Function.update_of_ne h _ _

end GoOn

section Sound

variable {κ : Type} [Fintype κ] {w : Clients κ} {s' : Registry} {l l' : List ℕ} {c : κ}
  {d : Doing} {p : ℕ} {a : Association}

theorem Sound.safe (h : w.Sound l) : w.Safe where
  alive c p hp := h.held.lists.live p (h.pointer c p hp)
  counter := ⟨l, h.held.lists, fun p hp => (h.held.counter p hp).trans (holders_outOf w.doing p)⟩
  noOverlap := h.noOverlap

variable [DecidableEq κ]

/-- What the others are doing is still right. -/
theorem Sound.goOn (h : w.Sound l) (hheld : Held s' (outOf (w.goOn c d s').doing) l')
    (hothers : ∀ e, e ≠ c → ∀ p, (w.doing e).pointer = some p → p ∈ l')
    (hpointer : ∀ p, d.pointer = some p → p ∈ l')
    (hnames : ∀ p ∈ l, (s'.entry p).filename = (w.registry.entry p).filename)
    (hname : ∀ p name role, d = .associating p name role → (s'.entry p).filename = name)
    (hoverlap : ¬ (w.goOn c d s').Overlap) : (w.goOn c d s').Sound l' where
  held := hheld
  pointer e p hp := by
    by_cases he : e = c
    · subst he
      rw [goOn_self] at hp
      exact hpointer p hp
    · rw [goOn_of_ne he] at hp
      exact hothers e he p hp
  name e p name role hdoing := by
    by_cases he : e = c
    · subst he
      rw [goOn_self] at hdoing
      exact hname p name role hdoing
    · rw [goOn_of_ne he] at hdoing
      have hp : p ∈ l := h.pointer e p (by rw [hdoing]; rfl)
      exact (hnames p hp).trans (h.name e p name role hdoing)
  noOverlap := hoverlap

/-- The others do not link in more than before. -/
theorem Sound.links (h : w.Sound l) (hlists : s'.Lists l') (hl : ∀ p ∈ l, p ∈ l')
    (hnames : ∀ p ∈ l, (s'.entry p).filename = (w.registry.entry p).filename) {e : κ}
    (he : e ≠ c) (hlinks : (w.goOn c d s').Links e) : w.Links e := by
  obtain ⟨name, nFiles, role, packetSize, hdoing, hfind⟩ := hlinks
  rw [goOn_of_ne he] at hdoing
  refine ⟨name, nFiles, role, packetSize, hdoing, ?_⟩
  rw [h.held.lists.find_none_iff]
  intro p hp
  rw [← hnames p hp]
  exact (hlists.find_none_iff).mp hfind p (hl p hp)

/-- A client that does not change the list in its next region does not overlap. -/
theorem Sound.noOverlap_goOn (h : w.Sound l) (hlists : s'.Lists l') (hl : ∀ p ∈ l, p ∈ l')
    (hnames : ∀ p ∈ l, (s'.entry p).filename = (w.registry.entry p).filename)
    (hunlinks : (w.goOn c d s').Unlinks c → ∀ e, e ≠ c → ¬ w.Unlinks e ∧ ¬ w.Links e)
    (hlinks : (w.goOn c d s').Links c → ∀ e, e ≠ c → ¬ w.Unlinks e) :
    ¬ (w.goOn c d s').Overlap := by
  have hothers : ∀ e, e ≠ c → (w.goOn c d s').Unlinks e → w.Unlinks e := by
    rintro e he ⟨p, hdoing⟩
    rw [goOn_of_ne he] at hdoing
    exact ⟨p, hdoing⟩
  have hlinked : ∀ e, e ≠ c → (w.goOn c d s').Links e → w.Links e := fun e he =>
    h.links hlists hl hnames he
  rintro ⟨e, e', hne, he, he'⟩
  by_cases hec : e = c
  · subst hec
    rcases he' with he' | he'
    · exact (hunlinks he e' hne.symm).1 (hothers e' hne.symm he')
    · exact (hunlinks he e' hne.symm).2 (hlinked e' hne.symm he')
  · have hwe := hothers e hec he
    by_cases hec' : e' = c
    · subst hec'
      rcases he' with he' | he'
      · exact (hunlinks he' e hec).1 hwe
      · exact hlinks he' e hec hwe
    · refine h.noOverlap ⟨e, e', hne, hwe, ?_⟩
      rcases he' with he' | he'
      · exact Or.inl (hothers e' hec' he')
      · exact Or.inr (hlinked e' hec' he')

/-! ## The regions -/

/-- The clients hold what they held. -/
theorem Sound.held_same (h : Held s' (outOf w.doing) l') (hheld : d.held = (w.doing c).held) :
    Held s' (outOf (w.goOn c d s').doing) l' := by
  obtain ⟨rest, hold, hnew⟩ := outOf_update w.doing c d
  rw [← hheld] at hold
  exact h.perm (hold.trans hnew.symm)

/-- One client holds one more. -/
theorem Sound.held_more (h : Held s' (a :: outOf w.doing) l') (hnone : (w.doing c).held = none) :
    Held s' (outOf (w.goOn c (.holding a) s').doing) l' := by
  obtain ⟨rest, hold, hnew⟩ := outOf_update w.doing c (.holding a)
  rw [hnone] at hold
  exact h.perm ((hold.cons a).trans hnew.symm)

/-- One client holds its index no longer. -/
theorem Sound.held_less (h : Held s' ((outOf w.doing).erase a) l')
    (hholding : w.doing c = .holding a) (hnone : d.held = none) :
    Held s' (outOf (w.goOn c d s').doing) l' := by
  obtain ⟨rest, hold, hnew⟩ := outOf_update w.doing c d
  rw [hholding] at hold
  rw [hnone] at hnew
  have hrest : ((outOf w.doing).erase a).Perm rest := by
    have herase := hold.erase a
    rwa [show (Doing.holding a).held.toList ++ rest = a :: rest from rfl,
      List.erase_cons_head] at herase
  exact h.perm (hrest.trans hnew.symm)

variable {sh : Shared κ} {name : String} {nFiles packetSize : ℕ} {role : Role}

/-- `afi_add` is called. -/
theorem Sound.call (h : w.Sound l) (hidle : w.doing c = .idle)
    (hok : w.Undisturbed c (.call name nFiles role packetSize)) :
    (w.goOn c (.adding name nFiles role packetSize) w.registry).Sound l := by
  refine h.goOn (Sound.held_same h.held (by rw [hidle]; rfl)) (fun e _ => h.pointer e)
    (fun p hp => by cases hp) (fun p _ => rfl) (fun p name role hd => by cases hd) ?_
  refine h.noOverlap_goOn h.held.lists (fun p hp => hp) (fun p _ => rfl) ?_ ?_
  · rintro ⟨p, hdoing⟩
    rw [goOn_self] at hdoing
    cases hdoing
  · rintro ⟨name', nFiles', role', packetSize', hdoing, hfind⟩ e _
    rw [goOn_self] at hdoing
    cases hdoing
    exact hok hfind e

/-- A client that is not about to change the list has no part in an overlap. -/
theorem Sound.noOverlap_quiet (h : w.Sound l) (hlists : s'.Lists l') (hl : ∀ p ∈ l, p ∈ l')
    (hnames : ∀ p ∈ l, (s'.entry p).filename = (w.registry.entry p).filename)
    (hquiet : (∀ p, d ≠ .closing p) ∧ ∀ name nFiles role packetSize,
      d ≠ .adding name nFiles role packetSize) : ¬ (w.goOn c d s').Overlap := by
  refine h.noOverlap_goOn hlists hl hnames ?_ ?_
  · rintro ⟨p, hdoing⟩
    rw [goOn_self] at hdoing
    exact absurd hdoing (hquiet.1 p)
  · rintro ⟨name, nFiles, role, packetSize, hdoing, -⟩
    rw [goOn_self] at hdoing
    exact absurd hdoing (hquiet.2 _ _ _ _)

/-- `afi_add` under the main lock. -/
theorem Sound.lookUp {calloc : Option ℕ} (h : w.Sound l)
    (hadding : w.doing c = .adding name nFiles role packetSize)
    (hcalloc : ∀ p ∈ calloc, p ∉ w.registry.live) (hstep : w.step c (.lookUp calloc) = some sh) :
    ∃ w' l', sh = .run w' ∧ w'.Sound l' := by
  unfold step at hstep
  rw [hadding] at hstep
  dsimp only at hstep
  rw [if_pos hcalloc] at hstep
  rcases h.held.lists.find_cases name with ⟨p, hp, hfind, hname⟩ | ⟨hfind, hnew⟩
  · -- it is found, and nothing changes
    have hlookup : w.registry.afiAddLookup name nFiles role.status packetSize calloc =
        some (.found p, w.registry) := by
      unfold Registry.afiAddLookup
      rw [hfind]
    rw [hlookup] at hstep
    obtain rfl := Option.some.inj hstep
    refine ⟨_, l, rfl, h.goOn (Sound.held_same h.held (by rw [hadding]; rfl))
      (fun e _ => h.pointer e) (fun q hq => ?_) (fun q _ => rfl) (fun q name' role' hd => ?_) ?_⟩
    · obtain rfl := Option.some.inj hq
      exact hp
    · cases hd
      exact hname
    · exact h.noOverlap_quiet h.held.lists (fun q hq => hq) (fun q _ => rfl) (by simp)
  · cases calloc with
    | none =>
        have hlookup : w.registry.afiAddLookup name nFiles role.status packetSize none =
            some (.outOfMemory, w.registry) := by
          unfold Registry.afiAddLookup
          rw [hfind]
        rw [hlookup] at hstep
        obtain rfl := Option.some.inj hstep
        refine ⟨_, l, rfl, h.goOn (Sound.held_same h.held (by rw [hadding]; rfl))
          (fun e _ => h.pointer e) (fun q hq => by cases hq) (fun q _ => rfl)
          (fun q name' role' hd => by cases hd) ?_⟩
        exact h.noOverlap_quiet h.held.lists (fun q hq => hq) (fun q _ => rfl) (by simp)
    | some p =>
        have hp : p ∉ w.registry.live := hcalloc p rfl
        obtain ⟨s₁, hcreate, hlists, -, hentry⟩ :=
          h.held.lists.create hfind hp nFiles role.status packetSize
        rw [hcreate] at hstep
        obtain rfl := Option.some.inj hstep
        have hsub : ∀ q ∈ l, q ∈ l ++ [p] := fun q hq => List.mem_append_left _ hq
        have hnames : ∀ q ∈ l, (s₁.entry q).filename = (w.registry.entry q).filename := by
          intro q hq
          rw [hentry, Function.update_of_ne]
          rintro rfl
          exact hp (h.held.lists.live q hq)
        refine ⟨_, l ++ [p], rfl, h.goOn (Sound.held_more
          (h.held.create hp hnew nFiles packetSize hlists hentry) (by rw [hadding]; rfl))
          (fun e _ q hq => hsub q (h.pointer e q hq)) (fun q hq => ?_) hnames
          (fun q name' role' hd => by cases hd) ?_⟩
        · obtain rfl := Option.some.inj hq
          simp
        · exact h.noOverlap_quiet hlists hsub hnames (by simp)

/-- A client that has found an index gets one association more, or is refused. -/
theorem Sound.hold {f : Entry → Entry} (h : w.Sound l) (hp : p ∈ l)
    (hname : (w.registry.entry p).filename = name) (hnone : (w.doing c).held = none)
    (hone : ¬ (role = .recorder ∧ (w.registry.entry p).recording = true))
    (hf : ∀ e, (f e).filename = e.filename ∧ (f e).associations = e.associations + 1 ∧
      (f e).recording = (e.recording || role = .recorder)) :
    (w.goOn c (.holding ⟨p, name, role⟩) (w.registry.modify p f)).Sound l := by
  have hnames : ∀ q ∈ l, ((w.registry.modify p f).entry q).filename =
      (w.registry.entry q).filename := fun q _ => Registry.modify_filename (fun e => (hf e).1) q
  refine h.goOn (Sound.held_more (h.held.associate hp hname hone hf) hnone)
    (fun e _ => h.pointer e) (fun q hq => ?_) hnames (fun q name' role' hd => by cases hd) ?_
  · obtain rfl := Option.some.inj hq
    exact hp
  · exact h.noOverlap_quiet h.held.lists.modify (fun q hq => hq) hnames (by simp)

/-- A client gives up what it was doing, and the list is as it was. -/
theorem Sound.rest (h : w.Sound l) (hnone : (w.doing c).held = none) :
    (w.goOn c .idle w.registry).Sound l :=
  h.goOn (Sound.held_same h.held hnone.symm) (fun e _ => h.pointer e) (fun q hq => by cases hq)
    (fun q _ => rfl) (fun q name' role' hd => by cases hd)
    (h.noOverlap_quiet h.held.lists (fun q hq => hq) (fun q _ => rfl) (by simp))

/-- `afi_disassociate` under the lock of the index. -/
theorem Sound.leave (h : w.Sound l) (hholding : w.doing c = .holding a)
    (hok : w.Undisturbed c .leave) (hstep : w.step c .leave = some sh) :
    ∃ w' l', sh = .run w' ∧ w'.Sound l' := by
  have hmem : a ∈ outOf w.doing := mem_outOf.mpr ⟨c, hholding⟩
  have hp := (h.held.held a hmem).1
  have hheld := h.held.dissociate hmem
  have hnames : ∀ q ∈ l, ((w.registry.modify a.fi (dissociated a.role)).entry q).filename =
      (w.registry.entry q).filename := fun q _ =>
    Registry.modify_filename (fun _ => Registry.dissociated_filename) q
  unfold step at hstep
  rw [hholding] at hstep
  dsimp only at hstep
  rw [h.held.afiDisassociateLocked hmem] at hstep
  obtain rfl := Option.some.inj hstep
  -- what it goes on to touches no other index
  have hdone : ∀ d : Doing, d.held = none → (∀ q, d.pointer = some q → q = a.fi) →
      (∀ q name role, d ≠ .associating q name role) →
      ¬ (w.goOn c d (w.registry.modify a.fi (dissociated a.role))).Overlap →
      (w.goOn c d (w.registry.modify a.fi (dissociated a.role))).Sound l := by
    intro d hnone hpointer hname hoverlap
    refine h.goOn (Sound.held_less hheld hholding hnone) (fun e _ => h.pointer e)
      (fun q hq => ?_) hnames (fun q name' role' hd => absurd hd (hname _ _ _)) hoverlap
    rw [hpointer q hq]
    exact hp
  refine ⟨_, l, rfl, ?_⟩
  by_cases hlast : (w.registry.entry a.fi).associations - 1 = 0
  · rw [if_pos hlast]
    refine hdone (.closing a.fi) rfl (fun q hq => (Option.some.inj hq).symm) (by simp) ?_
    have hone : (w.registry.entry a.fi).associations = 1 := by
      have hcounter := h.held.counter a.fi hp
      have hpos := holders_pos hmem
      omega
    refine h.noOverlap_goOn hheld.lists (fun q hq => hq) hnames (fun _ => hok a hholding hone) ?_
    rintro ⟨name, nFiles, role, packetSize, hdoing, -⟩
    rw [goOn_self] at hdoing
    cases hdoing
  · rw [if_neg hlast]
    split
    · exact hdone (.waking a.fi) rfl (fun q hq => (Option.some.inj hq).symm) (by simp)
        (h.noOverlap_quiet hheld.lists (fun q hq => hq) hnames (by simp))
    · exact hdone .idle rfl (fun q hq => by cases hq) (by simp)
        (h.noOverlap_quiet hheld.lists (fun q hq => hq) hnames (by simp))

/-- The close, which nobody else has a pointer for. -/
theorem Sound.close (h : w.Sound l) (hclosing : w.doing c = .closing p)
    (hok : w.Undisturbed c .close) (hstep : w.step c .close = some sh) :
    ∃ w' l', sh = .run w' ∧ w'.Sound l' := by
  have hp : p ∈ l := h.pointer c p (by rw [hclosing]; rfl)
  have halone := hok p hclosing
  have hnone : holders p (outOf w.doing) = 0 := by
    unfold holders
    rw [List.countP_eq_zero]
    intro b hb hfi
    obtain ⟨e, he⟩ := mem_outOf.mp hb
    by_cases hec : e = c
    · rw [hec, hclosing] at he
      cases he
    · exact halone e hec (by rw [he, ← of_decide_eq_true hfi]; rfl)
  obtain ⟨s₁, hclose, hlists, -, hentry⟩ := h.held.lists.close hp
  unfold step at hstep
  rw [hclosing] at hstep
  dsimp only at hstep
  rw [hclose] at hstep
  obtain rfl := Option.some.inj hstep
  refine ⟨_, l.erase p, rfl, h.goOn (Sound.held_same (h.held.close hnone hlists hentry)
    (by rw [hclosing]; rfl)) (fun e he q hq => ?_) (fun q hq => by cases hq)
    (fun q _ => by rw [hentry]) (fun q name' role' hd => by cases hd) ?_⟩
  · refine (h.held.lists.nodup.mem_erase_iff).mpr ⟨?_, h.pointer e q hq⟩
    rintro rfl
    exact halone e he hq
  · -- no other client was about to unlink
    rintro ⟨e, e', -, ⟨q, hdoing⟩, -⟩
    by_cases hec : e = c
    · rw [hec, goOn_self] at hdoing
      cases hdoing
    · rw [goOn_of_ne hec] at hdoing
      exact h.noOverlap ⟨e, c, hec, ⟨q, hdoing⟩, Or.inl ⟨p, hclosing⟩⟩

/-- **A region that nobody disturbs keeps the clients safe.** -/
theorem Sound.step {region : Region} (h : w.Sound l) (hok : w.Undisturbed c region)
    (hstep : w.step c region = some sh) : ∃ w' l', sh = .run w' ∧ w'.Sound l' := by
  have hstep' := hstep
  unfold Clients.step at hstep
  dsimp only at hstep
  split at hstep
  next hdoing =>
    obtain rfl := Option.some.inj hstep
    exact ⟨_, l, rfl, h.call hdoing hok⟩
  next hdoing =>
    by_cases hcalloc : ∀ p ∈ ‹Option ℕ›, p ∉ w.registry.live
    · exact h.lookUp hdoing hcalloc hstep'
    · rw [if_neg hcalloc] at hstep
      cases hstep
  next p name role hdoing =>
    have hp : p ∈ l := h.pointer c p (by rw [hdoing]; rfl)
    rw [Registry.afiAddAssociate_eq (h.held.lists.live p hp)] at hstep
    by_cases hrefused : role = .recorder ∧ (w.registry.entry p).recording = true
    · rw [if_pos hrefused] at hstep
      obtain rfl := Option.some.inj hstep
      exact ⟨_, l, rfl, h.rest (by rw [hdoing]; rfl)⟩
    · rw [if_neg hrefused] at hstep
      obtain rfl := Option.some.inj hstep
      exact ⟨_, l, rfl, h.hold hp (h.name c p name role hdoing) (by rw [hdoing]; rfl) hrefused
        fun e => ⟨rfl, rfl, Registry.associated_recording⟩⟩
  next name hdoing =>
    unfold Registry.afiGet at hstep
    rcases h.held.lists.find_cases name with ⟨p, hp, hfind, hname⟩ | ⟨hfind, -⟩
    · rw [hfind] at hstep
      obtain rfl := Option.some.inj hstep
      exact ⟨_, l, rfl, h.hold hp hname (by rw [hdoing]; rfl) (by simp)
        fun e => ⟨rfl, rfl, by simp [Entry.recording]⟩⟩
    · rw [hfind] at hstep
      obtain rfl := Option.some.inj hstep
      exact ⟨_, l, rfl, h.rest (by rw [hdoing]; rfl)⟩
  next a hdoing =>
    have hlive := h.held.lists.live a.fi (h.pointer c a.fi (by rw [hdoing]; rfl))
    rw [Registry.deref_of_mem hlive] at hstep
    obtain rfl := Option.some.inj hstep
    have hsame : w.goOn c (.holding a) w.registry = w := by
      unfold Clients.goOn
      rw [← hdoing, Function.update_eq_self]
    exact ⟨w, l, congrArg Shared.run hsame, h⟩
  next a hdoing => exact h.leave hdoing hok hstep'
  next p hdoing => exact h.close hdoing hok hstep'
  next p hdoing =>
    have hlive := h.held.lists.live p (h.pointer c p (by rw [hdoing]; rfl))
    unfold Registry.afiWakeUp at hstep
    rw [Registry.deref_of_mem hlive] at hstep
    obtain rfl := Option.some.inj hstep
    exact ⟨_, l, rfl, h.rest (by rw [hdoing]; rfl)⟩
  next => cases hstep

end Sound

end Clients

/-! ## The runs -/

section Results

variable {κ : Type} [Fintype κ] [DecidableEq κ] {sh : Shared κ} {w : Clients κ} {c : κ}
  {region : Region}

/-- The clients are sound. -/
def Shared.Sound (sh : Shared κ) : Prop := ∃ w l, sh = .run w ∧ w.Sound l

theorem sound_of_reachable (h : (Shared.system κ).ReachableUnder Shared.Undisturbed sh) :
    sh.Sound := by
  refine h.invariant ?_ ?_
  · rintro sh ⟨s, hinit, rfl⟩
    have hout : outOf (fun _ : κ => Doing.idle) = [] := by
      refine List.eq_nil_iff_forall_not_mem.mpr fun a ha => ?_
      obtain ⟨c, hc⟩ := mem_outOf.mp ha
      cases hc
    refine ⟨_, [], rfl, ⟨hinit.lists, ?_, ?_, ?_, ?_⟩, fun c p hp => (by cases hp),
      fun c p name role hd => (by cases hd), ?_⟩
    · exact fun p hp => absurd hp List.not_mem_nil
    · intro a ha
      rw [hout] at ha
      exact absurd ha List.not_mem_nil
    · exact fun p hp => absurd hp List.not_mem_nil
    · exact fun p hp => absurd hp List.not_mem_nil
    · rintro ⟨c, d, -, ⟨p, hp⟩, -⟩
      cases hp
  · rintro sh ⟨c, region⟩ sh' ⟨w, l, rfl, hsound⟩ hok hstep
    exact hsound.step hok hstep

/-- **Every index outlives its clients** in every interleaving of any number of clients
where nobody comes in between. -/
theorem safe_of_undisturbed (h : (Shared.system κ).ReachableUnder Shared.Undisturbed sh) :
    sh.Safe := by
  obtain ⟨w, l, rfl, hsound⟩ := sound_of_reachable h
  exact hsound.safe

/-- A region that is disturbed is not safe. -/
theorem safe_step_iff (h : (Shared.system κ).ReachableUnder Shared.Undisturbed (.run w))
    (hstep : w.step c region = some sh) : sh.Safe ↔ w.Undisturbed c region := by
  constructor
  · obtain ⟨w₀, l, heq, hsound⟩ := sound_of_reachable h
    obtain rfl : w = w₀ := by cases heq; rfl
    intro hsafe
    cases region with
    | call name nFiles role packetSize =>
        rintro hfind d ⟨p, hd⟩
        have hidle : w.doing c = .idle ∧
            sh = .run (w.goOn c (.adding name nFiles role packetSize) w.registry) := by
          unfold Clients.step at hstep
          cases hdoing : w.doing c <;> rw [hdoing] at hstep <;> cases hstep
          exact ⟨rfl, rfl⟩
        obtain ⟨hdoing, rfl⟩ := hidle
        have hne : d ≠ c := by
          rintro rfl
          rw [hdoing] at hd
          cases hd
        refine hsafe.noOverlap ⟨d, c, hne, ⟨p, ?_⟩, Or.inr ⟨_, _, _, _, Clients.goOn_self, hfind⟩⟩
        rw [Clients.goOn_of_ne hne]
        exact hd
    | leave =>
        intro a hdoing hone
        have hmem : a ∈ outOf w.doing := mem_outOf.mpr ⟨c, hdoing⟩
        unfold Clients.step at hstep
        rw [hdoing] at hstep
        dsimp only at hstep
        rw [hsound.held.afiDisassociateLocked hmem, if_pos (by rw [hone])] at hstep
        obtain rfl := Option.some.inj hstep
        have hoverlap := hsafe.noOverlap
        refine fun d hne => ⟨fun ⟨p, hd⟩ => ?_, ?_⟩
        · refine hoverlap ⟨c, d, hne.symm, ⟨a.fi, Clients.goOn_self⟩, Or.inl ⟨p, ?_⟩⟩
          exact (Clients.goOn_of_ne hne).trans hd
        · rintro ⟨name, nFiles, role, packetSize, hd, hfind⟩
          refine hoverlap ⟨c, d, hne.symm, ⟨a.fi, Clients.goOn_self⟩,
            Or.inr ⟨name, nFiles, role, packetSize, (Clients.goOn_of_ne hne).trans hd, ?_⟩⟩
          -- the name is as new as it was
          rw [hsound.held.lists.find_none_iff] at hfind
          rw [(hsound.held.dissociate hmem).lists.find_none_iff]
          intro q hq
          rw [Registry.modify_filename fun _ => Registry.dissociated_filename]
          exact hfind q hq
    | close =>
        intro p hdoing d hne hd
        have hp : p ∈ l := hsound.pointer c p (by rw [hdoing]; rfl)
        obtain ⟨s', hclose, -, hlive, -⟩ := hsound.held.lists.close hp
        unfold Clients.step at hstep
        rw [hdoing] at hstep
        dsimp only at hstep
        rw [hclose] at hstep
        obtain rfl := Option.some.inj hstep
        have halive := hsafe.alive d p ((congrArg _ (Clients.goOn_of_ne hne)).trans hd)
        have hfreed : p ∉ s'.live := by
          rw [hlive]
          exact Finset.notMem_erase p _
        exact hfreed halive
    | lookUp calloc => trivial
    | associate => trivial
    | get name => trivial
    | use => trivial
    | wakeUp => trivial
  · intro hok
    obtain ⟨w', l, rfl, hsound⟩ := sound_of_reachable (.step h (a := (c, region)) hok hstep)
    exact hsound.safe

end Results

/-- Two clients, of which the first one has recorded and leaves. -/
def lastLeaves : List (Fin 2 × Region) :=
  [(0, .call "first" 0 .recorder 5008), (0, .lookUp (some 1)), (1, .call "first" 3 .sender 0),
    (1, .lookUp none), (0, .leave), (0, .close)]

/-- Two clients, of which the second one sends what the first one records. -/
def bothHold : List (Fin 2 × Region) :=
  [(0, .call "first" 0 .recorder 5008), (0, .lookUp (some 1)), (1, .get "first"), (0, .leave)]

theorem noClient_reachable : (Shared.system (Fin 2)).ReachableUnder Shared.Undisturbed
    (.run ⟨noIndex, fun _ => .idle⟩) := .init ⟨noIndex, ⟨rfl, rfl⟩, rfl⟩

theorem safe_of_undisturbed_both :
    ∃ sh, System.runFrom Shared.step (.run ⟨noIndex, fun _ => .idle⟩) bothHold = some sh ∧
      sh.Safe := by
  obtain ⟨sh, hsh⟩ : ∃ sh, System.runFrom Shared.step (.run ⟨noIndex, fun _ => .idle⟩) bothHold =
    some sh := ⟨_, rfl⟩
  suffices hok : System.OkFrom Shared.Undisturbed Shared.step (.run ⟨noIndex, fun _ => .idle⟩)
      bothHold from ⟨sh, hsh, safe_of_undisturbed (noClient_reachable.runFrom hok hsh)⟩
  unfold bothHold
  refine ⟨?_, fun t ht => ?_⟩
  · rintro - d ⟨p, hd⟩
    cases hd
  obtain rfl := Option.some.inj ht
  refine ⟨trivial, fun t ht => ?_⟩
  obtain rfl := Option.some.inj ht
  refine ⟨trivial, fun t ht => ?_⟩
  obtain rfl := Option.some.inj ht
  refine ⟨fun a ha hone => ?_, fun t ht => trivial⟩
  cases ha
  exact absurd hone (by decide)

/-- `afi_add` finds an index, and it is freed before it is associated with. -/
theorem found_index_is_freed :
    ¬ ∀ sh, (Shared.system (Fin 2)).Reachable sh → sh.Safe := by
  intro hall
  obtain ⟨sh, hsh⟩ : ∃ sh, System.runFrom Shared.step (.run ⟨noIndex, fun _ => .idle⟩) lastLeaves =
    some sh := ⟨_, rfl⟩
  have hinit : (Shared.system (Fin 2)).Reachable (.run ⟨noIndex, fun _ => .idle⟩) :=
    .init ⟨noIndex, ⟨rfl, rfl⟩, rfl⟩
  have hsafe := hall sh (hinit.runFrom hsh)
  obtain rfl := Option.some.inj hsh
  have halive := hsafe.alive 1 1 rfl
  exact absurd halive (by decide)

end VlbiStreamer.ActiveFileIndex
