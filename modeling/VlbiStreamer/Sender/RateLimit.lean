import Mathlib.Tactic.Linarith
import Mathlib.Tactic.Ring
import VlbiStreamer.Library.Looping

/-!
# The rate limit

`generic_sendloop` reads the clock into `wait_last_sent` before its loop and calls
`udps_wait_function` before each packet, which sleeps until `wait_nanoseconds` have passed
since `wait_last_sent` and sets that forward; nothing else changes it.  `rate_limited` says
that the packets are never sent faster, over any stretch of the run, whatever the clock does.

* The clock is any sequence of readings, with the time that is slept in between in it.
* The loops that wait may not end: a call has a result with enough fuel or has none.
* Signed arithmetic that overflows has no meaning, and a call that comes to it no result.
  Unsigned arithmetic is that of `BitVec 64`.

This is the program without `PREEMPTKERNEL` and `TIMERTYPE_GETTIMEOFDAY`, and `BILLION` is an
integer.
-/

namespace VlbiStreamer.Sender

open Library

/-! ## Times -/

/-- `BILLION` -/
def billion : ℤ := 10 ^ 9

/-- `struct timespec` -/
structure TimeSpec where
  tvSec : ℤ
  tvNsec : ℤ
  deriving DecidableEq, Repr

/-- In nanoseconds. -/
def TimeSpec.total (t : TimeSpec) : ℤ := t.tvSec * billion + t.tvNsec

/-- What `clock_gettime` gives. -/
structure Reading extends TimeSpec where
  nonneg : 0 ≤ tvNsec
  lt_billion : tvNsec < billion

/-- A result of signed arithmetic. -/
def long (x : ℤ) : Option ℤ := if -2 ^ 63 ≤ x ∧ x < 2 ^ 63 then some x else none

/-- `nanodiff` -/
def nanodiff (start stop : TimeSpec) : Option ℤ := do
  let secs ← long (stop.tvSec - start.tvSec)
  let temp ← long (secs * billion)
  let nanos ← long (stop.tvNsec - start.tvNsec)
  long (temp + nanos)

/-- `nanoadd` -/
def nanoadd (datime : TimeSpec) (nanosToAdd : BitVec 64) : Option TimeSpec :=
  if billion ≤ (BitVec.ofInt 64 datime.tvNsec + nanosToAdd).toNat then do
    let tvSec ← long (datime.tvSec + 1)
    let left ← long (billion - datime.tvNsec)
    some ⟨tvSec, (nanosToAdd - BitVec.ofInt 64 left).toInt⟩
  else some ⟨datime.tvSec, (BitVec.ofInt 64 datime.tvNsec + nanosToAdd).toInt⟩

/-! ## The function -/

/-- A turn of `while((unsigned long)GETNANOS(st->req) > st->minsleep)`. -/
def sleepTurn (minsleep : BitVec 64) (req : ℤ) : Turn ℤ ℤ :=
  if minsleep < BitVec.ofInt 64 req then .again (BitVec.ofInt 64 req - minsleep).toInt
  else .stop req

/-- A turn of `while(nanodiff(&(opt->wait_last_sent),&st->now) < opt->wait_nanoseconds)`, with
`st->now` the reading `n`. -/
def spinTurn (clock : ℕ → Reading) (waitLastSent : TimeSpec) (waitNanoseconds : ℤ) (n : ℕ) :
    Turn ℕ (Option ℕ) :=
  match nanodiff waitLastSent (clock n).toTimeSpec with
  | none => .stop none
  | some diff => if diff < waitNanoseconds then .again (n + 1) else .stop (some n)

/-- `opt->wait_last_sent` and `st->now`, and how often the clock was read. -/
structure Limiter where
  waitLastSent : TimeSpec
  now : TimeSpec
  asked : ℕ
  deriving DecidableEq, Repr

variable (clock : ℕ → Reading) (minsleep : BitVec 64) (waitNanoseconds : BitVec 32) (fuel : ℕ)

/-- `udps_wait_function` -/
def udpsWaitFunction (s : Limiter) : Option Limiter :=
  if 0 < waitNanoseconds.toInt then do
    let now := (clock s.asked).toTimeSpec
    let wait ← nanodiff s.waitLastSent now
    let req ← long (waitNanoseconds.toInt - wait)
    if 0 < req then
      -- "sleep in minsleep sleeps to get rid of the bulk"
      let _ ← runLoop (sleepTurn minsleep) fuel req
      let n ← (runLoop (spinTurn clock s.waitLastSent waitNanoseconds.toInt) fuel
        (s.asked + 1)).join
      let waitLastSent ← nanoadd s.waitLastSent (BitVec.ofInt 64 waitNanoseconds.toInt)
      some ⟨waitLastSent, (clock n).toTimeSpec, n + 1⟩
    -- "Runaway timer! Resetting"
    else some ⟨now, now, s.asked + 1⟩
  else some s

/-- `generic_sendloop` behind the `k`-th call; the first reading is from before its loop. -/
def sendloopCalls : ℕ → Option Limiter
  | 0 => some ⟨(clock 0).toTimeSpec, (clock 0).toTimeSpec, 1⟩
  | k + 1 => (sendloopCalls k).bind (udpsWaitFunction clock minsleep waitNanoseconds fuel)

/-! ## Arithmetic -/

variable {clock minsleep waitNanoseconds fuel} {start stop a b : TimeSpec} {x y diff : ℤ}

theorem long_eq_some_iff : long x = some y ↔ y = x ∧ -2 ^ 63 ≤ x ∧ x < 2 ^ 63 := by
  unfold long
  split
  next hin =>
    constructor
    · intro heq
      exact ⟨(Option.some.inj heq).symm, hin⟩
    · rintro ⟨rfl, -⟩
      rfl
  next hout =>
    constructor
    · intro heq
      cases heq
    · rintro ⟨-, hin⟩
      exact absurd hin hout

/-- The difference is exact, and its seconds fit in a `long` as nanoseconds. -/
theorem nanodiff_spec (h : nanodiff start stop = some diff) :
    diff = stop.total - start.total ∧ (stop.tvSec - start.tvSec) * billion < 2 ^ 63 := by
  unfold nanodiff at h
  obtain ⟨secs, hsecs, h⟩ := Option.bind_eq_some_iff.mp h
  obtain ⟨temp, htemp, h⟩ := Option.bind_eq_some_iff.mp h
  obtain ⟨nanos, hnanos, h⟩ := Option.bind_eq_some_iff.mp h
  obtain ⟨rfl, -⟩ := long_eq_some_iff.mp hsecs
  obtain ⟨rfl, -, hlt⟩ := long_eq_some_iff.mp htemp
  obtain ⟨rfl, -⟩ := long_eq_some_iff.mp hnanos
  obtain ⟨rfl, -⟩ := long_eq_some_iff.mp h
  refine ⟨?_, hlt⟩
  unfold TimeSpec.total
  ring

/-- The nanoseconds of a time that may be more than a second, as they are added up. -/
def Unnormalised (t : TimeSpec) : Prop := 0 ≤ t.tvNsec ∧ t.tvNsec < 2 ^ 63

theorem Reading.unnormalised (r : Reading) : Unnormalised r.toTimeSpec := by
  have hlt := r.lt_billion
  unfold billion at hlt
  exact ⟨r.nonneg, by omega⟩

/-- **The sum is exact**, though the carry is at most one second. -/
theorem nanoadd_spec {k : ℕ} (ha : Unnormalised a) (hk : k < 2 ^ 31)
    (hfits : a.tvNsec + k < 2 ^ 63 + billion) (h : nanoadd a (BitVec.ofInt 64 k) = some b) :
    b.total = a.total + k ∧ Unnormalised b := by
  obtain ⟨sec, nsec⟩ := a
  obtain ⟨hnonneg, hlt⟩ := ha
  obtain ⟨n, rfl⟩ := Int.eq_ofNat_of_zero_le hnonneg
  have hsum : (BitVec.ofInt 64 (n : ℤ) + BitVec.ofInt 64 (k : ℤ)).toNat = n + k := by
    rw [BitVec.ofInt_natCast, BitVec.ofInt_natCast, BitVec.toNat_add, BitVec.toNat_ofNat,
      BitVec.toNat_ofNat]
    dsimp only at hlt
    omega
  unfold nanoadd at h
  dsimp only at h hfits hlt
  rw [hsum] at h
  unfold billion at h hfits
  unfold TimeSpec.total Unnormalised billion
  split at h
  next hcarry =>
    obtain ⟨sec', hsec, h⟩ := Option.bind_eq_some_iff.mp h
    obtain ⟨left, hleft, h⟩ := Option.bind_eq_some_iff.mp h
    obtain ⟨rfl, -⟩ := long_eq_some_iff.mp hsec
    obtain ⟨rfl, -⟩ := long_eq_some_iff.mp hleft
    have hnsec : (BitVec.ofInt 64 (k : ℤ) - BitVec.ofInt 64 (10 ^ 9 - (n : ℤ))).toInt =
        n + k - 10 ^ 9 := by
      have hadd : (k : ℤ).bmod (2 ^ 64) = k := Int.bmod_eq_of_le (by omega) (by omega)
      have hleft' : Int.bmod (10 ^ 9 - n) (2 ^ 64) = 10 ^ 9 - n :=
        Int.bmod_eq_of_le (by omega) (by omega)
      rw [BitVec.toInt_sub, BitVec.toInt_ofInt, BitVec.toInt_ofInt, hadd, hleft',
        Int.bmod_eq_of_le (by omega) (by omega)]
      ring
    rw [hnsec] at h
    obtain rfl := Option.some.inj h
    dsimp only
    push_cast at hcarry
    refine ⟨by ring, by omega, by omega⟩
  next hsmall =>
    have hnsec : (BitVec.ofInt 64 (n : ℤ) + BitVec.ofInt 64 (k : ℤ)).toInt = n + k := by
      rw [BitVec.toInt_eq_toNat_of_lt (by rw [hsum]; omega), hsum]
      push_cast
      rfl
    rw [hnsec] at h
    obtain rfl := Option.some.inj h
    dsimp only
    push_cast at hsmall
    refine ⟨by ring, by omega, by omega⟩

/-! ## One call -/

variable {s t : Limiter}

/-- The clock is read until the wait is over. -/
theorem spin_spec {w : ℤ} {n m : ℕ} (h : runLoop (spinTurn clock start w) fuel n = some (some m)) :
    n ≤ m ∧ ∃ diff, nanodiff start (clock m).toTimeSpec = some diff ∧ w ≤ diff := by
  have hends : Ends (spinTurn clock start w) n (some m) := ⟨fuel, h⟩
  have hpost := hends.invariant (fun i => n ≤ i) (fun r => ∀ m, r = some m →
    n ≤ m ∧ ∃ diff, nanodiff start (clock m).toTimeSpec = some diff ∧ w ≤ diff) ?_ ?_ le_rfl
  · exact hpost m rfl
  · intro i j hi hagain
    unfold spinTurn at hagain
    split at hagain
    · cases hagain
    · split at hagain
      · obtain rfl := Turn.again.inj hagain
        exact Nat.le_succ_of_le hi
      · cases hagain
  · intro i r hi hstop m hm
    unfold spinTurn at hstop
    split at hstop
    · obtain rfl := Turn.stop.inj hstop
      cases hm
    next diff hdiff =>
      split at hstop
      · cases hstop
      next hle =>
        obtain rfl := Turn.stop.inj hstop
        obtain rfl := Option.some.inj hm
        exact ⟨hi, diff, hdiff, not_lt.mp hle⟩

/-- What a call does. -/
structure Waited (clock : ℕ → Reading) (w : ℤ) (s t : Limiter) : Prop where
  unnormalised : Unnormalised t.waitLastSent
  waits : s.waitLastSent.total + w ≤ t.waitLastSent.total
  passed : t.waitLastSent.total ≤ t.now.total
  last : t.now = (clock (t.asked - 1)).toTimeSpec
  asked : s.asked < t.asked

/-- **One call** of `udps_wait_function`. -/
theorem udpsWaitFunction_spec (hw : 0 < waitNanoseconds.toInt)
    (hs : Unnormalised s.waitLastSent)
    (h : udpsWaitFunction clock minsleep waitNanoseconds fuel s = some t) :
    Waited clock waitNanoseconds.toInt s t := by
  obtain ⟨k, hk⟩ := Int.eq_ofNat_of_zero_le hw.le
  have hlt : k < 2 ^ 31 := by
    have hle := BitVec.toInt_lt (x := waitNanoseconds)
    rw [hk] at hle
    exact_mod_cast hle
  unfold udpsWaitFunction at h
  rw [if_pos hw] at h
  obtain ⟨wait, hwait, h⟩ := Option.bind_eq_some_iff.mp h
  obtain ⟨req, hreq, h⟩ := Option.bind_eq_some_iff.mp h
  obtain ⟨hdiff, -⟩ := nanodiff_spec hwait
  obtain ⟨rfl, -⟩ := long_eq_some_iff.mp hreq
  split at h
  next hsleeps =>
    obtain ⟨-, -, h⟩ := Option.bind_eq_some_iff.mp h
    obtain ⟨n, hn, h⟩ := Option.bind_eq_some_iff.mp h
    obtain ⟨last, hlast, h⟩ := Option.bind_eq_some_iff.mp h
    obtain rfl := Option.some.inj h
    obtain ⟨hasked, diff, hspin, hle⟩ := spin_spec (Option.join_eq_some_iff.mp hn)
    obtain ⟨hexact, hsecs⟩ := nanodiff_spec hspin
    have hnow := (clock n).lt_billion
    rw [hk] at hlast hle
    -- the seconds that have passed bound the nanoseconds that `tv_nsec` has gathered
    have hfits : s.waitLastSent.tvNsec + k < 2 ^ 63 + billion := by
      unfold TimeSpec.total at hexact
      linarith
    obtain ⟨htotal, hlast⟩ := nanoadd_spec hs hlt hfits hlast
    refine ⟨hlast, ?_, ?_, rfl, Nat.lt_succ_of_lt hasked⟩
    · rw [htotal, hk]
    · rw [htotal]
      show _ ≤ (clock n).total
      linarith
  next hlate =>
    obtain rfl := Option.some.inj h
    exact ⟨(clock s.asked).unnormalised, by dsimp only; omega, le_rfl, rfl, Nat.lt_succ_self _⟩

/-! ## The calls of the loop -/

/-- The calls end one after the other. -/
theorem sendloopCalls_of_le {j k : ℕ} (hjk : j ≤ k)
    (ht : sendloopCalls clock minsleep waitNanoseconds fuel k = some t) :
    ∃ s, sendloopCalls clock minsleep waitNanoseconds fuel j = some s := by
  induction k, hjk using Nat.le_induction generalizing t with
  | base => exact ⟨t, ht⟩
  | succ k _ ih =>
      obtain ⟨u, hu, -⟩ := Option.bind_eq_some_iff.mp ht
      exact ih hu

theorem unnormalised_of_calls (hw : 0 < waitNanoseconds.toInt) {k : ℕ}
    (ht : sendloopCalls clock minsleep waitNanoseconds fuel k = some t) :
    Unnormalised t.waitLastSent := by
  induction k generalizing t with
  | zero =>
      obtain rfl := Option.some.inj ht
      exact (clock 0).unnormalised
  | succ k ih =>
      obtain ⟨u, hu, hcall⟩ := Option.bind_eq_some_iff.mp ht
      exact (udpsWaitFunction_spec hw (ih hu) hcall).unnormalised

/-- From the `j`-th call to the `k`-th, `wait_last_sent` has moved by the waits between. -/
theorem waits_of_calls (hw : 0 < waitNanoseconds.toInt) {j k : ℕ} (hjk : j ≤ k)
    (hs : sendloopCalls clock minsleep waitNanoseconds fuel j = some s)
    (ht : sendloopCalls clock minsleep waitNanoseconds fuel k = some t) :
    s.waitLastSent.total + (k - j) * waitNanoseconds.toInt ≤ t.waitLastSent.total := by
  induction k, hjk using Nat.le_induction generalizing t with
  | base =>
      obtain rfl := Option.some.inj (hs.symm.trans ht)
      rw [sub_self, zero_mul, add_zero]
  | succ k _ ih =>
      obtain ⟨u, hu, hcall⟩ := Option.bind_eq_some_iff.mp ht
      have hstep := (udpsWaitFunction_spec hw (unnormalised_of_calls hw hu) hcall).waits
      have hrun := ih hu
      push_cast
      linarith

/-- **The configured rate is never exceeded**, over any stretch of the calls. -/
theorem rate_limited (clock : ℕ → Reading) (minsleep : BitVec 64) (waitNanoseconds : BitVec 32)
    (fuel : ℕ) (hw : 0 < waitNanoseconds.toInt) {k : ℕ} {t : Limiter}
    (ht : sendloopCalls clock minsleep waitNanoseconds fuel (k + 1) = some t) :
    t.now = (clock (t.asked - 1)).toTimeSpec ∧
      t.waitLastSent.total ≤ t.now.total ∧
      (∃ s, sendloopCalls clock minsleep waitNanoseconds fuel k = some s ∧
        waitNanoseconds.toInt ≤ t.waitLastSent.total - s.waitLastSent.total) ∧
      ∀ j ≤ k, ∃ s, sendloopCalls clock minsleep waitNanoseconds fuel j = some s ∧
        s.waitLastSent.total + (k + 1 - j) * waitNanoseconds.toInt ≤ t.now.total := by
  obtain ⟨u, hu, hcall⟩ := Option.bind_eq_some_iff.mp ht
  have hwaited := udpsWaitFunction_spec hw (unnormalised_of_calls hw hu) hcall
  refine ⟨hwaited.last, hwaited.passed, ⟨u, hu, ?_⟩, ?_⟩
  · have hwaits := hwaited.waits
    linarith
  · intro j hj
    obtain ⟨s, hs⟩ := sendloopCalls_of_le (Nat.le_succ_of_le hj) ht
    have hwaits := waits_of_calls hw (Nat.le_succ_of_le hj) hs ht
    have hpassed := hwaited.passed
    refine ⟨s, hs, ?_⟩
    push_cast at hwaits
    linarith

/-- A clock that is set back once. -/
def jumpyClock (n : ℕ) : Reading :=
  ⟨⟨7, [0, 600, 1200, 1800, 100, 2000, 3100, 9000].getD n 0 % billion⟩,
    Int.emod_nonneg _ (by decide), Int.emod_lt_of_pos _ (by decide)⟩

/-- A packet in time, one after the clock was set back, and one that is late. -/
theorem rate_limited_jumpy : sendloopCalls jumpyClock 1000 1500 8 3 =
      some ⟨⟨7, 9000⟩, ⟨7, 9000⟩, 8⟩ ∧
    ∀ j ≤ 2, ∃ s, sendloopCalls jumpyClock 1000 1500 8 j = some s ∧
      s.waitLastSent.total + (2 + 1 - j) * 1500 ≤ 7000009000 := by
  have hcalls : sendloopCalls jumpyClock 1000 1500 8 3 =
      some ⟨⟨7, 9000⟩, ⟨7, 9000⟩, 8⟩ := by
    decide +kernel
  exact ⟨hcalls, (rate_limited jumpyClock 1000 1500 8 (by decide) hcalls).2.2.2⟩

end VlbiStreamer.Sender
