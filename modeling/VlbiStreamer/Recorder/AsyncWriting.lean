import Mathlib.Data.List.Perm.Basic
import VlbiStreamer.Library.Looping
import VlbiStreamer.Recorder.WriteBuffer

/-!
# The asynchronous write loop

`sbuf_async_loop` submits chunks through `aiow_write` and polls for completions through
`aiow_check` until `asyncdiff` is zero.  Here its turns are looked at one by one, with the
queue of the kernel, which takes at most `MAX_EVENTS` requests and writes each of them in
full, at any time and in any order.

`asyncLoop_of_ends` says that this is the loop of the transcripts.
-/

namespace VlbiStreamer.Recorder

open Library

/-- A request in the queue of the kernel. -/
structure Submitted where
  number : ℕ
  req : Request

/-- The loop between two turns, with the requests in the queue, the completed ones and the
calls of the recorder so far. -/
structure AsyncWriting where
  sbuf : Sbuf
  queue : List Submitted
  done : List Submitted
  submissions : ℕ
  checks : ℕ
  calls : List Call

/-- What `io_getevents` reports: at check number `n` the request at a position in the queue, if
there is one, and the `errno` of the thread. -/
structure Polls where
  ready : ℕ → Option ℕ
  errno : ℕ → ℤ

namespace AsyncWriting

/-- `aiow_write`; it returns a `long`. -/
def submit (w : AsyncWriting) (req : Request) : ℤ × AsyncWriting :=
  let ret := (BitVec.ofInt 64 (aiowWrite w.queue.length req.count.toNat 1)).toInt
  let called := { w with calls := w.calls ++ [.write ret] }
  if w.queue.length < maxEvents then
    (ret, { called with
      queue := w.queue ++ [⟨w.submissions, req⟩]
      submissions := w.submissions + 1 })
  else (ret, called)

variable (o : Opt) (polls : Polls)

/-- The request whose completion the next check reports, with its position. -/
def reported (w : AsyncWriting) : Option (ℕ × Submitted) :=
  (polls.ready w.checks).bind fun i => (w.queue[i]?).map fun r => (i, r)

/-- `aiow_check` -/
def poll (w : AsyncWriting) : ℤ × AsyncWriting :=
  match reported polls w with
  | none =>
      let ret := aiowCheck 0 0 0
      (ret, { w with checks := w.checks + 1, calls := w.calls ++ [.check ret] })
  | some (i, r) =>
      let ret := aiowCheck 1 r.req.count.toInt (polls.errno w.checks)
      (ret, { w with
        queue := w.queue.eraseIdx i
        done := w.done ++ [r]
        checks := w.checks + 1
        calls := w.calls ++ [.check ret] })

/-- The end of a turn: `sbuf_check`. -/
def checkTurn (w : AsyncWriting) : Turn AsyncWriting (Outcome × AsyncWriting) :=
  let (answer, w') := poll polls w
  let (err, s') := sbufCheck w.sbuf answer
  if err = 0 then .again { w' with sbuf := s' }
  else .stop (.returned (-1) s', { w' with sbuf := s' })

/-- One turn of `sbuf_async_loop`. -/
def asyncTurn (w : AsyncWriting) : Turn AsyncWriting (Outcome × AsyncWriting) :=
  if w.sbuf.asyncdiff = 0 then .stop (.returned 0 w.sbuf, w)
  else if w.sbuf.diff ≠ 0 then
    match simpleWriteBytes o w.sbuf with
    | none => .stop (.aborted, w)
    | some req =>
        let (ret, w') := submit w req
        let (err, s') := writeAnswered req w.sbuf ret
        if err = 0 then checkTurn polls { w' with sbuf := s' }
        else .stop (.returned (-1) s', { w' with sbuf := s' })
  else if w.sbuf.recer then checkTurn polls w
  else .stop (.returned (-1) w.sbuf, w)

/-- `sbuf_async_loop` is entered with nothing in the queue. -/
def entered (s : Sbuf) : AsyncWriting := ⟨{ s with asyncdiff := s.diff }, [], [], 0, 0, []⟩

section Results

variable {o : Opt} {polls : Polls} {w w' w₀ : AsyncWriting} {req : Request} {r : Submitted}
  {s s' : Sbuf}

/-! ## The chunks -/

theorem simpleWriteBytes_limit (h : writeLimit o ≤ s.diff) :
    simpleWriteBytes o s = some ⟨writeLimit o, writeLimit o⟩ := by
  have hcount : (if writeLimit o < s.diff then writeLimit o else s.diff) = writeLimit o := by
    split
    · rfl
    next hless => exact BitVec.le_antisymm (BitVec.not_lt.mp hless) h
  simp only [simpleWriteBytes, hcount]
  exact if_neg fun hne => hne.1 rfl

theorem simpleWriteBytes_tail (hdirect : o.writend.usesDirectio = true)
    (h : s.diff < writeLimit o) : simpleWriteBytes o s = simpleEndTransaction o s := by
  have hcount : (if writeLimit o < s.diff then writeLimit o else s.diff) = s.diff :=
    if_neg fun hless => BitVec.lt_irrefl _ (BitVec.lt_trans h hless)
  simp only [simpleWriteBytes, hcount]
  refine if_pos ⟨fun heq => ?_, hdirect⟩
  rw [heq] at h
  exact BitVec.lt_irrefl _ h

theorem simpleEndTransaction_aligned (h : s.diff.toNat % blockAlign = 0) :
    simpleEndTransaction o s = some ⟨s.diff, s.diff⟩ := by
  simp only [simpleEndTransaction, if_pos h]
  rw [if_neg fun hassert => hassert.2.2.1 rfl, BitVec.add_zero]

/-! ## The calls -/

theorem submit_full (h : maxEvents ≤ w.queue.length) :
    submit w req = (0, { w with calls := w.calls ++ [.write 0] }) := by
  have hroom : ¬ w.queue.length < maxEvents := Nat.not_lt.mpr h
  unfold submit aiowWrite
  simp only [if_neg hroom]
  rfl

theorem submit_taken (h : w.queue.length < maxEvents) :
    submit w req = (req.count.toInt, { w with
      queue := w.queue ++ [⟨w.submissions, req⟩]
      submissions := w.submissions + 1
      calls := w.calls ++ [.write req.count.toInt] }) := by
  have hret : (BitVec.ofInt 64 (req.count.toNat : ℤ)).toInt = req.count.toInt := by
    rw [BitVec.ofInt_natCast, BitVec.ofNat_toNat, BitVec.setWidth_eq]
  unfold submit aiowWrite
  simp only [if_pos h]
  rw [if_neg (by decide), hret]

theorem reported_perm {i : ℕ} (h : reported polls w = some (i, r)) :
    w.queue.Perm (r :: w.queue.eraseIdx i) := by
  obtain ⟨j, -, hj⟩ := Option.bind_eq_some_iff.mp h
  obtain ⟨r', hr', heq⟩ := Option.map_eq_some_iff.mp hj
  obtain ⟨rfl, rfl⟩ := Prod.mk.inj heq
  obtain ⟨hlt, rfl⟩ := List.getElem?_eq_some_iff.mp hr'
  exact (List.getElem_cons_eraseIdx_perm hlt).symm

theorem poll_none (h : reported polls w = none) :
    poll polls w = (0, { w with checks := w.checks + 1, calls := w.calls ++ [.check 0] }) := by
  unfold poll
  rw [h]
  rfl

theorem poll_some {i : ℕ} (h : reported polls w = some (i, r)) :
    poll polls w = (aiowCheck 1 r.req.count.toInt (polls.errno w.checks), { w with
      queue := w.queue.eraseIdx i
      done := w.done ++ [r]
      checks := w.checks + 1
      calls := w.calls ++ [.check (aiowCheck 1 r.req.count.toInt (polls.errno w.checks))] }) := by
  unfold poll
  rw [h]

/-! ## The turns -/

theorem checkTurn_eq : checkTurn polls w =
    if (sbufCheck w.sbuf (poll polls w).1).1 = 0 then
      .again { (poll polls w).2 with sbuf := (sbufCheck w.sbuf (poll polls w).1).2 }
    else .stop (.returned (-1) (sbufCheck w.sbuf (poll polls w).1).2,
      { (poll polls w).2 with sbuf := (sbufCheck w.sbuf (poll polls w).1).2 }) := rfl

theorem checkTurn_none (h : reported polls w = none) :
    checkTurn polls w =
      .again { w with checks := w.checks + 1, calls := w.calls ++ [.check 0] } := by
  rw [checkTurn_eq, poll_none h]
  rfl

theorem checkTurn_some {i : ℕ} (h : reported polls w = some (i, r))
    (hok : sbufCheck w.sbuf (aiowCheck 1 r.req.count.toInt (polls.errno w.checks)) = (0, s')) :
    checkTurn polls w = .again
      { sbuf := s'
        queue := w.queue.eraseIdx i
        done := w.done ++ [r]
        submissions := w.submissions
        checks := w.checks + 1
        calls := w.calls ++
          [.check (aiowCheck 1 r.req.count.toInt (polls.errno w.checks))] } := by
  rw [checkTurn_eq, poll_some h]
  show (if (sbufCheck _ (aiowCheck 1 r.req.count.toInt _)).1 = 0 then _ else _) = _
  rw [hok]
  rfl

theorem asyncTurn_done (h : w.sbuf.asyncdiff = 0) :
    asyncTurn o polls w = .stop (.returned 0 w.sbuf, w) := by
  unfold asyncTurn
  rw [if_pos h]

theorem asyncTurn_aborted (hleft : w.sbuf.asyncdiff ≠ 0) (hdiff : w.sbuf.diff ≠ 0)
    (h : simpleWriteBytes o w.sbuf = none) : asyncTurn o polls w = .stop (.aborted, w) := by
  unfold asyncTurn
  rw [if_neg hleft, if_pos hdiff, h]

theorem asyncTurn_checked (hleft : w.sbuf.asyncdiff ≠ 0) (hdiff : w.sbuf.diff = 0)
    (hrecer : w.sbuf.recer = true) : asyncTurn o polls w = checkTurn polls w := by
  unfold asyncTurn
  rw [if_neg hleft, if_neg (not_not.mpr hdiff), if_pos hrecer]

theorem asyncTurn_lost (hleft : w.sbuf.asyncdiff ≠ 0) (hdiff : w.sbuf.diff = 0)
    (hrecer : ¬ w.sbuf.recer = true) :
    asyncTurn o polls w = .stop (.returned (-1) w.sbuf, w) := by
  unfold asyncTurn
  rw [if_neg hleft, if_neg (not_not.mpr hdiff), if_neg hrecer]

/-- A turn that writes a chunk. -/
theorem asyncTurn_wrote (polls : Polls) (hleft : w.sbuf.asyncdiff ≠ 0) (hdiff : w.sbuf.diff ≠ 0)
    (h : simpleWriteBytes o w.sbuf = some req) :
    asyncTurn o polls w =
      if (writeAnswered req w.sbuf (submit w req).1).1 = 0 then
        checkTurn polls
          { (submit w req).2 with sbuf := (writeAnswered req w.sbuf (submit w req).1).2 }
      else
        .stop (.returned (-1) (writeAnswered req w.sbuf (submit w req).1).2,
          { (submit w req).2 with sbuf := (writeAnswered req w.sbuf (submit w req).1).2 }) := by
  unfold asyncTurn
  rw [if_neg hleft, if_pos hdiff, h]

/-! ## The loop of the transcripts -/

theorem poll_calls : (poll polls w).2.calls = w.calls ++ [.check (poll polls w).1] := by
  unfold poll
  split <;> rfl

theorem submit_calls : (submit w req).2.calls = w.calls ++ [.write (submit w req).1] := by
  unfold submit
  split <;> rfl

/-- The end of a turn in the loop of the transcripts. -/
theorem asyncLoop_of_check {fuel : ℕ} {out : Outcome} {due : Bool}
    (ih : ∀ w, runLoop (asyncTurn o polls) fuel w = some (out, w') →
      ∃ more, w'.calls = w.calls ++ more ∧ asyncLoop o more false w.sbuf = some out)
    (hdue : due = true ∨ w.sbuf.asyncdiff ≠ 0 ∧ w.sbuf.diff = 0 ∧ w.sbuf.recer = true)
    (hturn : asyncTurn o polls w₀ = checkTurn polls w)
    (hrun : runLoop (asyncTurn o polls) (fuel + 1) w₀ = some (out, w')) :
    ∃ more, w'.calls = w.calls ++ more ∧ asyncLoop o more due w.sbuf = some out := by
  rw [checkTurn_eq] at hturn
  by_cases hok : (sbufCheck w.sbuf (poll polls w).1).1 = 0
  · rw [if_pos hok] at hturn
    rw [runLoop_again hturn] at hrun
    obtain ⟨more, hcalls, hloop⟩ := ih _ hrun
    refine ⟨.check (poll polls w).1 :: more, ?_, ?_⟩
    · rw [hcalls]
      show (poll polls w).2.calls ++ more = _
      rw [poll_calls, List.append_assoc]
      rfl
    · rw [asyncLoop, if_pos hdue]
      show (if (sbufCheck w.sbuf (poll polls w).1).1 = 0 then _ else _) = _
      rw [if_pos hok]
      exact hloop
  · rw [if_neg hok] at hturn
    rw [runLoop_stop hturn] at hrun
    obtain ⟨rfl, rfl⟩ := Prod.mk.inj (Option.some.inj hrun)
    refine ⟨[.check (poll polls w).1], poll_calls, ?_⟩
    rw [asyncLoop, if_pos hdue]
    show (if (sbufCheck w.sbuf (poll polls w).1).1 = 0 then _ else _) = _
    rw [if_neg hok]
    rfl

/-- The loop is the one of the transcripts: it makes the calls of its log. -/
theorem asyncLoop_of_ends {out : Outcome}
    (h : Ends (asyncTurn o polls) (entered s) (out, w)) :
    asyncLoop o w.calls false { s with asyncdiff := s.diff } = some out := by
  suffices hmore : ∀ w₀, Ends (asyncTurn o polls) w₀ (out, w) →
      ∃ more, w.calls = w₀.calls ++ more ∧ asyncLoop o more false w₀.sbuf = some out by
    obtain ⟨more, hcalls, hrun⟩ := hmore _ h
    rw [hcalls]
    exact hrun
  rintro w₀ ⟨fuel, hrun⟩
  induction fuel generalizing w₀ with
  | zero => cases hrun
  | succ fuel ih =>
      by_cases hdone : w₀.sbuf.asyncdiff = 0
      · rw [runLoop_stop (asyncTurn_done hdone)] at hrun
        obtain ⟨rfl, rfl⟩ := Prod.mk.inj (Option.some.inj hrun)
        refine ⟨[], (List.append_nil _).symm, ?_⟩
        simp only [asyncLoop, Bool.false_eq_true, if_false, if_pos hdone]
      by_cases hdiff : w₀.sbuf.diff = 0
      · by_cases hrecer : w₀.sbuf.recer = true
        · exact asyncLoop_of_check ih (Or.inr ⟨hdone, hdiff, hrecer⟩)
            (asyncTurn_checked hdone hdiff hrecer) hrun
        · rw [runLoop_stop (asyncTurn_lost hdone hdiff hrecer)] at hrun
          obtain ⟨rfl, rfl⟩ := Prod.mk.inj (Option.some.inj hrun)
          refine ⟨[], (List.append_nil _).symm, ?_⟩
          simp only [asyncLoop, Bool.false_eq_true, if_false, if_neg hdone,
            if_neg (not_not.mpr hdiff), if_neg hrecer]
      cases hreq : simpleWriteBytes o w₀.sbuf with
      | none =>
          rw [runLoop_stop (asyncTurn_aborted hdone hdiff hreq)] at hrun
          obtain ⟨rfl, rfl⟩ := Prod.mk.inj (Option.some.inj hrun)
          refine ⟨[], (List.append_nil _).symm, ?_⟩
          simp only [asyncLoop, Bool.false_eq_true, if_false, if_neg hdone, if_pos hdiff,
            atChunk, hreq, Option.isSome_none]
      | some req =>
          have hready : ¬ (false = true ∨ w₀.sbuf.asyncdiff = 0 ∨ w₀.sbuf.diff = 0) := by
            rintro (hdue | hzero | hzero)
            · cases hdue
            · exact hdone hzero
            · exact hdiff hzero
          have hturn := asyncTurn_wrote polls hdone hdiff hreq
          by_cases hok : (writeAnswered req w₀.sbuf (submit w₀ req).1).1 = 0
          · rw [if_pos hok] at hturn
            obtain ⟨more, hcalls, hloop⟩ :
                ∃ more, w.calls = _ ++ more ∧ asyncLoop o more true _ = some out :=
              asyncLoop_of_check ih (Or.inl rfl) hturn hrun
            refine ⟨.write (submit w₀ req).1 :: more, ?_, ?_⟩
            · rw [hcalls]
              show (submit w₀ req).2.calls ++ more = _
              rw [submit_calls, List.append_assoc]
              rfl
            · rw [asyncLoop, if_neg hready, hreq]
              show (if (writeAnswered req w₀.sbuf (submit w₀ req).1).1 = 0 then _ else _) = _
              rw [if_pos hok]
              exact hloop
          · rw [if_neg hok] at hturn
            rw [runLoop_stop hturn] at hrun
            obtain ⟨rfl, rfl⟩ := Prod.mk.inj (Option.some.inj hrun)
            refine ⟨[.write (submit w₀ req).1], submit_calls, ?_⟩
            rw [asyncLoop, if_neg hready, hreq]
            show (if (writeAnswered req w₀.sbuf (submit w₀ req).1).1 = 0 then _ else _) = _
            rw [if_neg hok]
            rfl

end Results

end AsyncWriting

end VlbiStreamer.Recorder
