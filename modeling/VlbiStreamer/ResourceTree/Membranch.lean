import Mathlib.Data.Fintype.Sum
import Mathlib.Tactic.DeriveFintype
import VlbiStreamer.ResourceTree.Threads

/-!
# The memory buffers of all recordings

`membranch` is the branch of the memory buffers.  Every recording, an `opt`, uses
it from three sides: its streamer thread gets buffers with `get_free` and
`get_loaded`, the writing thread of a buffer gives it back with `set_free` or
`set_loaded`, and `vlbistreamer`, once it has joined the streamer thread, calls
`block_until_free` before the `opt` is thrown away.

A step is one region of `resourcetree.c` between taking and giving up a lock, as
in `ResourceTree.Threads`, by a party that is still running.  `get_free` runs the
`acquire` callback after it has given up the lock; `acquiring` is the buffer it
has in hand until then.  The last scan of the first loop of `block_until_free`
and its whole second loop are one region.

`owed`, `released`, `retaken` and `stolen` are logs of a call of
`block_until_free`; `LeftNothing` is what they should say when it returns.
-/

namespace VlbiStreamer.ResourceTree

open Library BranchList

/-- `struct simplebuf`. -/
structure Simplebuf (ω : Type) where
  opt : Option ω
  fileid : ℕ
  diff : ℕ
  deriving DecidableEq

section Callbacks

variable {ω : Type} [DecidableEq ω]

/-- `sbuf_acquire`. -/
def sbufAcquire (o : ω) (acq : ℕ) (sbuf : Simplebuf ω) : Simplebuf ω :=
  { sbuf with opt := some o, fileid := acq, diff := 0 }

/-- `sbuf_release`. -/
def sbufRelease (sbuf : Simplebuf ω) : Simplebuf ω := { sbuf with opt := none, diff := 0 }

/-- `sbuf_identify` with `CHECK_BY_SEQ`. -/
def sbufIdentifySeq (seq : ℕ) (o : ω) (sbuf : Simplebuf ω) : Bool :=
  sbuf.opt = some o && sbuf.fileid = seq

/-- `sbuf_identify` with `CHECK_BY_OPTPOINTER`. -/
def sbufIdentifyOpt (o : ω) (sbuf : Simplebuf ω) : Bool := sbuf.opt = some o

@[simp] theorem sbufRelease_opt (sbuf : Simplebuf ω) : (sbufRelease sbuf).opt = none := rfl

@[simp] theorem sbufAcquire_opt (o : ω) (acq : ℕ) (sbuf : Simplebuf ω) :
    (sbufAcquire o acq sbuf).opt = some o := rfl

theorem opt_of_sbufIdentifySeq {seq : ℕ} {o : ω} {sbuf : Simplebuf ω}
    (h : sbufIdentifySeq seq o sbuf) : sbuf.opt = some o := by
  simp only [sbufIdentifySeq, Bool.and_eq_true, decide_eq_true_eq] at h
  exact h.1

@[simp] theorem sbufIdentifyOpt_iff {o : ω} {sbuf : Simplebuf ω} :
    sbufIdentifyOpt o sbuf = true ↔ sbuf.opt = some o := by
  simp [sbufIdentifyOpt]

end Callbacks

/-- The threads that use the memory buffers. -/
inductive Party (ω β : Type) where
  /-- The thread that receives or sends the packets of an `opt`. -/
  | streamer (o : ω)
  /-- The thread that runs `vlbistreamer` for an `opt`. -/
  | vlbistreamer (o : ω)
  /-- The writing thread of a buffer. -/
  | buffer (b : β)
  deriving DecidableEq, Fintype

/-- How far a recording is. -/
inductive Phase where
  /-- It has no threads, as the `default_opt` of the daemon. -/
  | idle
  /-- Its streamer thread runs. -/
  | running
  /-- `vlbistreamer` has joined the streamer thread. -/
  | ended
  /-- `vlbistreamer` is in `block_until_free`. -/
  | blocking
  /-- `block_until_free` has returned. -/
  | returned
  deriving DecidableEq, Repr

/-- Is the thread running? -/
def Alive {ω β : Type} (phase : ω → Phase) : Party ω β → Prop
  | .streamer o => phase o = .running
  | .vlbistreamer o => phase o = .blocking
  | .buffer _ => True

/-- The memory buffers and the recordings that use them. -/
structure Membranch (ω β : Type) where
  threads : Threads (Party ω β) (Simplebuf ω)
  /-- `get_free` took the buffer for this `opt` and has not run `acquire` yet. -/
  acquiring : ℕ → Option ω
  phase : ω → Phase
  /-- The busy and loaded buffers of the `opt` when `block_until_free` was called. -/
  owed : ω → Set ℕ
  /-- The buffers whose `release` has run since. -/
  released : ω → Set ℕ
  /-- The buffers that `get_free` has taken off the free list since. -/
  retaken : ω → Set ℕ
  /-- The buffers of other recordings that the call has moved. -/
  stolen : ω → Set ℕ

/-- The steps of the program on the memory buffers. -/
inductive MembranchAction (ω β : Type) where
  | region (a : Action (Party ω β) (Simplebuf ω))
  | acquire (o : ω) (acq : ℕ) (x : ℕ)
  | join (o : ω)
  | call (o : ω)

namespace Membranch

variable {ω β : Type} [DecidableEq ω] [DecidableEq β]

/-- The list a buffer is on. -/
def list (s : Membranch ω β) (x : ℕ) : BranchList :=
  (s.threads.branch.heap x).currentBranch

/-- `sbuf->opt`. -/
def opt (s : Membranch ω β) (x : ℕ) : Option ω := (s.threads.branch.heap x).entity.opt

/-- The streamer thread is not in the middle of a `get_free`. -/
def Settled (s : Membranch ω β) (o : ω) : Prop :=
  ∀ x ∈ s.threads.branch.live, s.acquiring x ≠ some o

/-- The buffer belongs to another recording, or `get_free` has just taken it for
one. -/
def OfOther (s : Membranch ω β) (o : ω) (x : ℕ) : Prop :=
  ∃ o', o' ≠ o ∧ (s.opt x = some o' ∨ s.acquiring x = some o')

/-- The thread that runs a region. -/
def thread : Action (Party ω β) (Simplebuf ω) → Party ω β
  | .getFree t _ | .request t _ _ | .takeTicket t _ | .recheck t _ | .setFree t _ _
  | .callNext t _ _ | .setLoaded t _ _ | .give t _ _ | .callback t _ _ | .evict t _ _
  | .releaseLoaded t _ _ => t

/-- What the functions are called with.
* A streamer thread gets buffers for its own `opt`, and hands them to a writing
  thread.
* The `acquire` callback has run before a buffer is given away.
* Nobody but `acquire` and `release` changes the `opt` of a buffer.
* The second loop of `block_until_free` follows a scan that found nothing. -/
def Permits (s : Membranch ω β) : Action (Party ω β) (Simplebuf ω) → Prop
  | .getFree t check => check = none ∧ ∃ o, t = .streamer o ∧ s.Settled o
  | .request t c identify =>
      (c = .getLoaded ∧ ∃ o seq, t = .streamer o ∧ s.Settled o ∧
        identify = sbufIdentifySeq seq o) ∨
      (c = .blockUntilFree ∧ ∃ o, t = .vlbistreamer o ∧ identify = sbufIdentifyOpt o ∧
        s.threads.branch.blockOnBusy identify ≠ some (.null, s.threads.branch))
  | .setFree _ release x => release = sbufRelease ∧ s.acquiring x = none
  | .setLoaded _ x _ => s.acquiring x = none
  | .give _ u x => (∃ b, u = .buffer b) ∧ s.acquiring x = none
  | .callback _ f _ => ∀ sbuf, (f sbuf).opt = sbuf.opt
  | .evict _ release _ => release = sbufRelease
  | .releaseLoaded t identify release => ∃ o, t = .vlbistreamer o ∧
      identify = sbufIdentifyOpt o ∧ release = sbufRelease ∧
      s.threads.branch.blockOnBusy identify = some (.null, s.threads.branch)
  | _ => True

/-- `block_until_free`, run by `t`, moves the buffer `x`. -/
def Evicts (s : Membranch ω β) (t : Party ω β) (x : ℕ) :
    Action (Party ω β) (Simplebuf ω) → Prop
  | .evict u _ en => u = t ∧ x = en
  | .releaseLoaded u identify release =>
      u = t ∧ ¬ s.threads.Spares x (.releaseLoaded u identify release)
  | _ => False

/-- `get_free` takes the buffer `x` off the free list. -/
def Takes (s : Membranch ω β) (t : Threads (Party ω β) (Simplebuf ω)) (x : ℕ) : Prop :=
  s.list x = freelist ∧ (t.branch.heap x).currentBranch = busylist

instance (s : Membranch ω β) (t : Threads (Party ω β) (Simplebuf ω)) (x : ℕ) :
    Decidable (s.Takes t x) :=
  inferInstanceAs (Decidable (_ ∧ _))

/-- What is known after a region that led to `t`. -/
def after (s : Membranch ω β) (a : Action (Party ω β) (Simplebuf ω))
    (t : Threads (Party ω β) (Simplebuf ω)) : Membranch ω β where
  threads := t
  acquiring x := match a with
    | .getFree (.streamer o) _ => if s.Takes t x then some o else s.acquiring x
    | _ => s.acquiring x
  phase := match a with
    | .releaseLoaded (.vlbistreamer o) _ _ => Function.update s.phase o .returned
    | _ => s.phase
  owed := s.owed
  released o := s.released o ∪ {x | ¬ s.threads.Spares x a}
  retaken o := s.retaken o ∪ {x | s.Takes t x}
  stolen o := s.stolen o ∪ {x | s.Evicts (.vlbistreamer o) x a ∧ s.OfOther o x}

/-- A step of the program. -/
inductive Step (s : Membranch ω β) : MembranchAction ω β → Membranch ω β → Prop where
  /-- A region of `resourcetree.c`. -/
  | region {a : Action (Party ω β) (Simplebuf ω)}
      {t : Threads (Party ω β) (Simplebuf ω)} :
      Alive s.phase (thread a) → s.Permits a → Threads.Step s.threads a t →
      Step s (.region a) (s.after a t)
  /-- The end of `get_free`. -/
  | acquire {o : ω} {acq x : ℕ} {t : Threads (Party ω β) (Simplebuf ω)} :
      s.acquiring x = some o →
      Threads.Step s.threads (.callback (.streamer o) (sbufAcquire o acq) x) t →
      Step s (.acquire o acq x)
        { s with threads := t, acquiring := Function.update s.acquiring x none }
  /-- The streamer thread ends and `pthread_join` returns. -/
  | join {o : ω} : s.phase o = .running → s.threads.Free (.streamer o) → s.Settled o →
      Step s (.join o) { s with phase := Function.update s.phase o .ended }
  /-- `vlbistreamer` calls `block_until_free`. -/
  | call {o : ω} : s.phase o = .ended →
      Step s (.call o) { s with
        phase := Function.update s.phase o .blocking
        owed := Function.update s.owed o
          {x | x ∈ s.threads.branch.live ∧ s.list x ≠ freelist ∧ s.opt x = some o}
        released := Function.update s.released o ∅
        retaken := Function.update s.retaken o ∅
        stolen := Function.update s.stolen o ∅ }

/-- No other recording can have a buffer that still carries this `opt`. -/
def Stale (phase : ω → Phase) (o : ω) : Prop :=
  phase o = .idle ∨ ∀ o', phase o' ≠ .idle → o' = o

/-- The program starts.  `sbuf_init` leaves in a buffer the `opt` that it was made
for: the `default_opt` of the daemon, or the only one there is. -/
structure IsStart (s : Membranch ω β) : Prop where
  threads : Threads.IsStart s.threads
  acquiring : ∀ x, s.acquiring x = none
  phase : ∀ o, s.phase o = .idle ∨ s.phase o = .running
  opt : ∀ x o, s.opt x = some o → Stale s.phase o
  owed : ∀ o, s.owed o = ∅
  stolen : ∀ o, s.stolen o = ∅

/-- The program. -/
def system (ω β : Type) [DecidableEq ω] [DecidableEq β] :
    System (Membranch ω β) (MembranchAction ω β) where
  init := IsStart
  step := Step

/-- **`block_until_free` has left nothing behind.** -/
structure LeftNothing (s : Membranch ω β) (o : ω) : Prop where
  /-- No busy or loaded buffer is identified by the `opt`. -/
  unidentified : ∀ x ∈ s.threads.branch.live, s.list x ≠ freelist →
    sbufIdentifyOpt o (s.threads.branch.heap x).entity = false
  /-- Every buffer that was has been released and is on the free list, unless
  `get_free` has taken it from there since. -/
  cleared : ∀ x ∈ s.owed o, x ∈ s.released o ∧ (s.list x = freelist ∨ x ∈ s.retaken o)
  /-- No buffer of another recording was released or moved. -/
  spared : s.stolen o = ∅

/-- The steps after which a ticket belongs to the buffer it was taken for: when the
test of `set_free` finds the counters equal, no thread is between finding the
buffer and taking its ticket. -/
def Undisturbed (s : Membranch ω β) : MembranchAction ω β → Prop
  | .region (.setFree _ _ x) =>
      (s.threads.branch.heap x).waitersBottom = (s.threads.branch.heap x).waitersHead →
        ∀ u c, s.threads.role u x ≠ .queueing c
  | _ => True

end Membranch

end VlbiStreamer.ResourceTree
