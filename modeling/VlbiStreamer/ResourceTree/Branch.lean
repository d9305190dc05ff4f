import Mathlib.Data.Finset.Card
import Mathlib.Logic.Function.Basic

/-!
# The resource tree: entities and their three lists

`resourcetree.c` keeps every memory buffer and every recording point in an
`entity_list_branch`: three list heads, `freelist`, `busylist` and
`loadedlist`, over intrusive `listed_entity` nodes.  This module is the C code
on an explicit heap.

* A `listed_entity *` is a natural number, `NULL` is `none`, and the heap maps
  every address to a record.  `live` is the set of the addresses that were
  handed to `add_to_entlist` and not freed by `remove_from_branch`.
* A `listed_entity **` is a `Cell`: a list head or the `child` field of a
  node.  `current_branch` only ever holds the address of a list head, so it is
  the name of that head.  The heads are an arbitrary type `κ`, because
  `add_to_next` works on any root; `BranchList` names the three of a branch.
* The callbacks of an entity (`acquire`, `check`, `identify`, `release`) see
  its payload `entity : ε` and are arguments of the operations that call them.

Every operation returns `none` where the C code would dereference `NULL` or
follow `child` pointers for ever; `live.card` steps are all a walk is given.
That this never happens on a branch that is used through these operations is
`EntityListBranch.wellFormed_of_run` in `ResourceTree.Operations`.
-/

namespace VlbiStreamer.ResourceTree

/-- `struct listed_entity`, less its callbacks and its lock. -/
structure ListedEntity (κ ε : Type) where
  child : Option ℕ
  father : Option ℕ
  currentBranch : κ
  waitersHead : ℕ
  waitersBottom : ℕ
  entity : ε

/-- The list heads and the heap they live in. -/
structure Lists (κ ε : Type) where
  root : κ → Option ℕ
  heap : ℕ → ListedEntity κ ε
  live : Finset ℕ

/-- The three list heads of `struct entity_list_branch`. -/
inductive BranchList where
  | freelist
  | busylist
  | loadedlist
  deriving DecidableEq, Repr

/-- `struct entity_list_branch` together with the entities on it. -/
abbrev EntityListBranch (ε : Type) := Lists BranchList ε

/-- The places a `struct listed_entity **` may point at. -/
inductive Cell (κ : Type) where
  | root (k : κ)
  | child (e : ℕ)

/-! ## Reading and writing the heap -/

namespace Lists

variable {κ ε : Type} [DecidableEq κ]

/-- `*cell`. -/
def read (s : Lists κ ε) : Cell κ → Option ℕ
  | .root k => s.root k
  | .child e => (s.heap e).child

/-- Assign to fields of the record at `e`. -/
def modify (s : Lists κ ε) (e : ℕ) (f : ListedEntity κ ε → ListedEntity κ ε) :
    Lists κ ε :=
  { s with heap := Function.update s.heap e (f (s.heap e)) }

/-- `k = v` for a list head. -/
def setRoot (s : Lists κ ε) (k : κ) (v : Option ℕ) : Lists κ ε :=
  { s with root := Function.update s.root k v }

/-- `e->child = v`. -/
def setChild (s : Lists κ ε) (e : ℕ) (v : Option ℕ) : Lists κ ε :=
  s.modify e fun le => { le with child := v }

/-- `e->father = v`. -/
def setFather (s : Lists κ ε) (e : ℕ) (v : Option ℕ) : Lists κ ε :=
  s.modify e fun le => { le with father := v }

/-- `*cell = v`. -/
def write (s : Lists κ ε) : Cell κ → Option ℕ → Lists κ ε
  | .root k, v => s.setRoot k v
  | .child e, v => s.setChild e v

/-- `if (e != NULL) e->father = v`. -/
def setFatherIf (s : Lists κ ε) : Option ℕ → Option ℕ → Lists κ ε
  | none, _ => s
  | some e, v => s.setFather e v

/-! ## `add_to_next` -/

/-- `add_before_ent(new, old)`. -/
def addBeforeEnt (new old : ℕ) (s : Lists κ ε) : Lists κ ε :=
  let s := s.setChild new (some old)
  let s := s.setFather new (s.heap old).father
  let s := match (s.heap old).father with
    | none => s
    | some f => s.setChild f (some new)
  s.setFather old (some new)

/-- The `while` loop of `add_to_next` with its two exits: in front of the first
entity that `compare` puts behind `toadd`, or behind the last one. -/
def addToNextLoop (compare : Option (ε → ε → Bool)) (toadd : ℕ) :
    ℕ → Cell κ → Lists κ ε → Option (Lists κ ε)
  | 0, _, _ => none
  | fuel + 1, cell, s =>
      match s.read cell with
      | none => none
      | some cur =>
          if compare.any (fun cmp => cmp (s.heap toadd).entity (s.heap cur).entity) then
            let s := if (s.heap cur).father = none then s.write cell (some toadd) else s
            some (s.addBeforeEnt toadd cur)
          else match (s.heap cur).child with
            | none => some ((s.setFather toadd (some cur)).setChild cur (some toadd))
            | some _ => addToNextLoop compare toadd fuel (.child cur) s

/-- `add_to_next(root, toadd, compare)`. -/
def addToNext (root : κ) (toadd : ℕ) (compare : Option (ε → ε → Bool))
    (s : Lists κ ε) : Option (Lists κ ε) :=
  let s := s.modify toadd fun le =>
    { le with child := none, father := none, currentBranch := root }
  match s.root root with
  | none => some (s.setRoot root (some toadd))
  | some _ => addToNextLoop compare toadd s.live.card (.root root) s

/-! ## Moving and removing -/

/-- `mutex_free_change_branch(to, en)`. -/
def mutexFreeChangeBranch (target : κ) (en : ℕ) (s : Lists κ ε) : Option (Lists κ ε) :=
  let le := s.heap en
  if le.currentBranch = target then some s
  else if s.root le.currentBranch = some en then
    ((s.setRoot le.currentBranch le.child).setFatherIf le.child none).addToNext target en none
  else match le.father with
    | none => none
    | some f => ((s.setChild f le.child).setFatherIf le.child (some f)).addToNext target en none

/-- `remove_from_branch(br, en, mutex_free)`; the call of `close` only frees
what the entity owns. -/
def removeFromBranch (en : ℕ) (s : Lists κ ε) : Lists κ ε :=
  let le := s.heap en
  let s :=
    if s.root le.currentBranch = some en then
      (s.setFatherIf le.child none).setRoot le.currentBranch le.child
    else match le.father with
      | none => s  -- "A element without a father, which isn't on top of a branch"
      | some f => (s.setChild f le.child).setFatherIf le.child (some f)
  let s := (s.setChild en none).setFather en none
  { s with live := s.live.erase en }

/-- `loop_and_check(head, ..)`: the first entity from `head` on that
`identify` recognises.  The outer `Option` is the walk's termination. -/
def loopAndCheck (identify : ε → Bool) (s : Lists κ ε) :
    ℕ → Option ℕ → Option (Option ℕ)
  | _, none => some none
  | 0, some _ => none
  | fuel + 1, some e =>
      if identify (s.heap e).entity then some (some e)
      else loopAndCheck identify s fuel (s.heap e).child

end Lists

/-! ## The operations of a branch -/

/-- `INT16_MAX`. -/
def int16Max : ℕ := 32767

/-- `ADD_SAFELY_INT16T`. -/
def addSafelyInt16t (x : ℕ) : ℕ := if x = int16Max then 0 else x + 1

namespace EntityListBranch

open BranchList

variable {ε : Type}

/-- A branch nothing was added to yet, `memset` to zero. -/
structure IsEmpty (s : EntityListBranch ε) : Prop where
  root : ∀ k, s.root k = none
  live : s.live = ∅

/-- `add_to_entlist(br, en)` for a freshly allocated entity with contents `le`. -/
def addToEntlist (en : ℕ) (le : ListedEntity BranchList ε) (s : EntityListBranch ε) :
    Option (EntityListBranch ε) :=
  { s with heap := Function.update s.heap en le, live := insert en s.live }.addToNext
    freelist en none

/-- `mutex_free_set_busy(br, en)`. -/
def mutexFreeSetBusy (en : ℕ) (s : EntityListBranch ε) : Option (EntityListBranch ε) :=
  s.mutexFreeChangeBranch busylist en

/-- What a pass of `get_free` under the branch lock comes to. -/
inductive GetFree where
  /-- No entity in any list: return `NULL`. -/
  | null
  /-- Nothing fit: sleep on `busysignal`. -/
  | sleep
  /-- This entity is now busy. -/
  | got (en : ℕ)
  deriving DecidableEq, Repr

/-- The first fit entity of the free list.  `check` tells which entities are fit;
a branch without a `check` callback passes `none`. -/
def firstFit (check : Option (ε → Bool)) (s : EntityListBranch ε) : Option (Option ℕ) :=
  match check with
  | none => some (s.root freelist)
  | some fit => s.loopAndCheck fit s.live.card (s.root freelist)

/-- One pass of the loop of `get_free` under the branch lock. -/
def getFree (check : Option (ε → Bool)) (s : EntityListBranch ε) :
    Option (GetFree × EntityListBranch ε) := do
  let temp ← s.firstFit check
  match temp with
  | none =>
      if s.root busylist = none ∧ s.root loadedlist = none then some (.null, s)
      else some (.sleep, s)
  | some en => do
      let s ← s.mutexFreeSetBusy en
      some (.got en, s)

/-- `get_from_all(br, ..)`: the identified entity and the list it is on. -/
def getFromAll (identify : ε → Bool) (s : EntityListBranch ε) :
    Option (Option (ℕ × BranchList)) := do
  match ← s.loopAndCheck identify s.live.card (s.root freelist) with
  | some en => some (some (en, freelist))
  | none =>
      match ← s.loopAndCheck identify s.live.card (s.root busylist) with
      | some en => some (some (en, busylist))
      | none =>
          match ← s.loopAndCheck identify s.live.card (s.root loadedlist) with
          | some en => some (some (en, loadedlist))
          | none => some none

/-- What `get_specific`, `get_loaded` and `block_until_free` come to while they
hold the branch lock. -/
inductive Request where
  /-- No such entity: return `NULL`. -/
  | null
  /-- The caller now has this entity. -/
  | got (en : ℕ)
  /-- The caller is to queue for this entity. -/
  | queue (en : ℕ)
  /-- `assert(gotfrom != GOT_FROM_FREE)` failed. -/
  | assertFailed
  deriving DecidableEq, Repr

/-- `get_specific` under the branch lock. -/
def getSpecific (identify : ε → Bool) (s : EntityListBranch ε) :
    Option (Request × EntityListBranch ε) := do
  match ← s.getFromAll identify with
  | none => some (.null, s)
  | some (en, freelist) => do
      let s ← s.mutexFreeChangeBranch busylist en
      some (.got en, s)
  | some (en, _) => some (.queue en, s)

/-- `get_loaded` under the branch lock. -/
def getLoaded (identify : ε → Bool) (s : EntityListBranch ε) :
    Option (Request × EntityListBranch ε) := do
  match ← s.getFromAll identify with
  | none => some (.null, s)
  | some (_, freelist) => some (.assertFailed, s)
  | some (en, busylist) => some (.queue en, s)
  | some (en, loadedlist) => do
      let s ← s.mutexFreeChangeBranch busylist en
      some (.got en, s)

/-- Taking a ticket under the wait lock: `ADD_SAFELY_INT16T(waiters_head)`. -/
def takeTicket (en : ℕ) (s : EntityListBranch ε) : EntityListBranch ε :=
  s.modify en fun le => { le with waitersHead := addSafelyInt16t le.waitersHead }

/-- Calling the next ticket under the wait lock:
`ADD_SAFELY_INT16T(waiters_bottom)`, before the signal. -/
def callNext (en : ℕ) (s : EntityListBranch ε) : EntityListBranch ε :=
  s.modify en fun le => { le with waitersBottom := addSafelyInt16t le.waitersBottom }

/-- Run an `acquire` or `release` callback on the entity. -/
def callback (f : ε → ε) (en : ℕ) (s : EntityListBranch ε) : EntityListBranch ε :=
  s.modify en fun le => { le with entity := f le.entity }

/-- Which way a release goes. -/
inductive Release where
  /-- Somebody has queued: the next ticket is to be called. -/
  | passOn
  /-- Nobody has queued: the entity was put on its list. -/
  | parked
  deriving DecidableEq, Repr

/-- `set_free` under the branch lock: the release callback, then the test of
the two counters, which reads them without the wait lock. -/
def setFreeLocked (release : ε → ε) (en : ℕ) (s : EntityListBranch ε) :
    Option (Release × EntityListBranch ε) :=
  let s := s.callback release en
  if (s.heap en).waitersBottom ≠ (s.heap en).waitersHead then some (.passOn, s)
  else do
    let s ← s.mutexFreeChangeBranch freelist en
    some (.parked, s)

/-- `set_free`, alone. -/
def setFree (release : ε → ε) (en : ℕ) (s : EntityListBranch ε) :
    Option (EntityListBranch ε) := do
  match ← s.setFreeLocked release en with
  | (.passOn, s) => some (s.callNext en)
  | (.parked, s) => some s

/-- `set_loaded`: the test is made under both locks. -/
def setLoaded (en : ℕ) (s : EntityListBranch ε) :
    Option (Release × EntityListBranch ε) :=
  if (s.heap en).waitersHead ≠ (s.heap en).waitersBottom then
    some (.passOn, s.callNext en)
  else do
    let s ← s.mutexFreeChangeBranch loadedlist en
    some (.parked, s)

/-- `set_busy`. -/
def setBusy (en : ℕ) (s : EntityListBranch ε) : Option (EntityListBranch ε) :=
  s.mutexFreeSetBusy en

/-- The test of the first loop of `block_until_free`: is an entity of this
user still busy? -/
def blockOnBusy (identify : ε → Bool) (s : EntityListBranch ε) :
    Option (Request × EntityListBranch ε) := do
  match ← s.loopAndCheck identify s.live.card (s.root busylist) with
  | none => some (.null, s)
  | some en => some (.queue en, s)

/-- The rest of that loop's body, once the ticket was called: the waiter takes
the branch lock again, puts the entity on the free list and releases it. -/
def blockRelease (release : ε → ε) (en : ℕ) (s : EntityListBranch ε) :
    Option (EntityListBranch ε) := do
  let s ← s.mutexFreeChangeBranch freelist en
  some (callback release en s)

/-- The second loop of `block_until_free`: every loaded entity of this user is
put on the free list and released. -/
def blockReleaseLoaded (identify : ε → Bool) (release : ε → ε) :
    ℕ → EntityListBranch ε → Option (EntityListBranch ε)
  | 0, _ => none
  | fuel + 1, s => do
      match ← s.loopAndCheck identify s.live.card (s.root loadedlist) with
      | none => some s
      | some en => blockReleaseLoaded identify release fuel (← s.blockRelease release en)

end EntityListBranch

end VlbiStreamer.ResourceTree
