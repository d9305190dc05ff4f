import VlbiStreamer.Library.Bcd
import VlbiStreamer.Library.Fields

/-!
# The time in a Mark5B header

A Mark5B header has the second of the day, in binary-coded decimal, and a day that is
not that of the year.  Two functions compare it with a time of reference and find out
by themselves on which side of midnight it is:

* `secdiffFromMark5b` yields the seconds from the header to the reference;
* `epochtimeFromMark5b` yields the time of the header.

The headers here are less than `midnightThreshold` seconds away from the reference.
`headerTime_iff` says when both functions are right.
-/

namespace VlbiStreamer.Datatypes

open Library

/-! ## Calendar time -/

/-- `struct tm`, with months from `0` and years from 1900. -/
structure Tm where
  sec : ℤ
  min : ℤ
  hour : ℤ
  mday : ℤ
  mon : ℤ
  year : ℤ
  deriving DecidableEq, Repr

def isLeap (year : ℤ) : Prop :=
  (year + 1900) % 4 = 0 ∧ ((year + 1900) % 100 ≠ 0 ∨ (year + 1900) % 400 = 0)

instance (year : ℤ) : Decidable (isLeap year) := inferInstanceAs (Decidable (_ ∧ _))

/-- The days of a year before a month. -/
def daysBeforeMonth (year : ℤ) (mon : ℕ) : ℤ :=
  [0, 31, 59, 90, 120, 151, 181, 212, 243, 273, 304, 334].getD mon 0 +
    if 2 ≤ mon ∧ isLeap year then 1 else 0

/-- The days of the epoch before a month, which may be one of another year. -/
def daysBefore (year mon : ℤ) : ℤ :=
  let year := year + mon / 12
  365 * (year - 70) + (year - 69) / 4 - (year - 1) / 100 + (year + 299) / 400 +
    daysBeforeMonth year (mon % 12).toNat

/-- `mktime` in UTC: a day need not be one of its month. -/
def mktime (tm : Tm) : ℤ :=
  86400 * (daysBefore tm.year tm.mon + tm.mday - 1) + 3600 * tm.hour + 60 * tm.min + tm.sec

/-- `timezone` of UTC. -/
def timezone : ℤ := 0

-- the first of March of 2000 and the last of February
example : mktime ⟨0, 0, 0, 1, 2, 100⟩ = 951868800 := by decide
example : mktime ⟨0, 0, 0, 29, 1, 100⟩ = mktime ⟨0, 0, 0, 0, 2, 100⟩ := by decide

/-! ## The header -/

/-- `SECONDS_IN_DAY` -/
def secondsInDay : ℤ := 86400

/-- `MIDNIGHTRESHOLD` -/
def midnightThreshold : ℤ := 10000

/-- `ERROR_IN_DIFF` -/
def errorInDiff : ℤ := -2 ^ 31

/-- `SECOND_FROM_MARK5B` -/
def secondFromMark5b (buf : Bytes) : BitVec 32 := word32 buf 8 &&& 0x000fffff

/-- `DAY_FROM_MARK5B` -/
def dayFromMark5b (buf : Bytes) : BitVec 32 := (word32 buf 8 &&& 0xfff00000) >>> 20

/-- `get_sec_and_day_from_mark5b`: its return value, the second and the day. -/
def getSecAndDayFromMark5b (buf : Bytes) : ℤ × ℤ × ℤ :=
  (0, atoiHex (secondFromMark5b buf).toNat, atoiHex (dayFromMark5b buf).toNat)

/-- `epochtime_from_mark5b(buffer, reftime)` -/
def epochtimeFromMark5b (buf : Bytes) (reftime : Tm) : ℤ :=
  let (err, m5seconds, _) := getSecAndDayFromMark5b buf
  if err ≠ 0 then errorInDiff
  else
    let m5tm : Tm :=
      { sec := m5seconds.tmod (60 * 60) |>.tmod 60
        min := (m5seconds.tmod (60 * 60)).tdiv 60
        hour := m5seconds.tdiv (60 * 60)
        mday := reftime.mday
        mon := reftime.mon
        year := reftime.year }
    let m5tm :=
      if reftime.hour = 23 ∧ m5seconds < midnightThreshold then
        { m5tm with mday := m5tm.mday + 1 }
      else if reftime.hour < 0 ∧ secondsInDay - midnightThreshold < m5seconds then
        { m5tm with mday := m5tm.mday - 1 }
      else m5tm
    mktime m5tm - timezone

/-- `secdiff_from_mark5b(buffer, reftime, errref)`: the difference, and what goes to
`errref`. -/
def secdiffFromMark5b (buf : Bytes) (reftime : Tm) (errref : ℤ) : ℤ × ℤ :=
  let (err, m5seconds, _) := getSecAndDayFromMark5b buf
  if err ≠ 0 then (errorInDiff, -1)
  else
    let secofday := reftime.hour * 60 * 60 + reftime.min * 60 + reftime.sec
    let diff :=
      if secondsInDay - midnightThreshold < secofday ∧ m5seconds < midnightThreshold then
        -((secondsInDay - secofday) + m5seconds)
      else if secofday < midnightThreshold ∧ secondsInDay - midnightThreshold < m5seconds then
        (secondsInDay - m5seconds) + secofday
      else secofday - m5seconds
    (diff, errref)

/-! ## Times of day -/

/-- A time of reference: the time of day is one. -/
structure RefTime extends Tm where
  sec_bounds : 0 ≤ sec ∧ sec < 60
  min_bounds : 0 ≤ min ∧ min < 60
  hour_bounds : 0 ≤ hour ∧ hour < 24

/-- `SEC_OF_DAY_FROM_TM` -/
def RefTime.secOfDay (t : RefTime) : ℤ := 60 * 60 * t.hour + 60 * t.min + t.sec

/-- A header with so many seconds of the day, and a day. -/
def stamped (header : Bytes) (day : BitVec 12) (second : ℕ) : Bytes :=
  setWord32 header 8 (day ++ BitVec.ofNat 20 (bcd second))

/-- The header of a time `d` seconds after the reference. -/
def RefTime.headerAt (t : RefTime) (header : Bytes) (day : BitVec 12) (d : ℤ) : Bytes :=
  stamped header day ((mktime t.toTm + d) % secondsInDay).toNat

section Time

variable {t : RefTime} {header : Bytes} {day : BitVec 12} {d : ℤ} {n : ℕ}

/-- The seconds of a header are read back. -/
theorem getSec_stamped (header : Bytes) (day : BitVec 12) (hn : n < 86400) :
    (getSecAndDayFromMark5b (stamped header day n)).1 = 0 ∧
    (getSecAndDayFromMark5b (stamped header day n)).2.1 = n := by
  have hbcd : bcd n < 16 ^ 5 := bcd_lt (by omega)
  have hmask : (secondFromMark5b (stamped header day n)).toNat = bcd n := by
    have hlow : (secondFromMark5b (stamped header day n)).toNat = _ :=
      toNat_and_mask (k := 20) _ (by omega)
    rw [hlow, stamped, word32_setWord32, toNat_append, BitVec.toNat_ofNat]
    omega
  refine ⟨rfl, ?_⟩
  show ((atoiHex _ : ℕ) : ℤ) = n
  rw [hmask, atoiHex_bcd]

theorem mktime_eq (t : RefTime) : mktime t.toTm =
    86400 * (daysBefore t.year t.mon + t.mday - 1) + t.secOfDay := by
  unfold mktime RefTime.secOfDay
  omega

/-- A second of the day in hours, minutes and seconds. -/
theorem mktime_ofSecond {n mday mon year : ℤ} (hn : 0 ≤ n) :
    mktime ⟨(n.tmod (60 * 60)).tmod 60, (n.tmod (60 * 60)).tdiv 60, n.tdiv (60 * 60), mday, mon,
      year⟩ = 86400 * (daysBefore year mon + mday - 1) + n := by
  have hrest : 0 ≤ n % 3600 := Int.emod_nonneg _ (by omega)
  rw [show (60 : ℤ) * 60 = 3600 from rfl, Int.tmod_eq_emod_of_nonneg hn,
    Int.tmod_eq_emod_of_nonneg hrest, Int.tdiv_eq_ediv_of_nonneg hrest,
    Int.tdiv_eq_ediv_of_nonneg hn]
  show 86400 * (daysBefore year mon + mday - 1) + 3600 * (n / 3600) + 60 * (n % 3600 / 60) +
    n % 3600 % 60 = _
  omega

theorem RefTime.secOfDay_bounds (t : RefTime) : 0 ≤ t.secOfDay ∧ t.secOfDay < 86400 := by
  have hsec := t.sec_bounds
  have hmin := t.min_bounds
  have hhour := t.hour_bounds
  unfold RefTime.secOfDay
  omega

/-- What the header says of the second of the day. -/
theorem RefTime.headerAt_second (t : RefTime) (header : Bytes) (day : BitVec 12) (d : ℤ) :
    (getSecAndDayFromMark5b (t.headerAt header day d)).1 = 0 ∧
    (getSecAndDayFromMark5b (t.headerAt header day d)).2.1 = (t.secOfDay + d) % 86400 := by
  have hmod : (mktime t.toTm + d) % secondsInDay = (t.secOfDay + d) % 86400 := by
    rw [mktime_eq, secondsInDay]
    omega
  obtain ⟨herr, hsecond⟩ :=
    getSec_stamped header day (n := ((t.secOfDay + d) % 86400).toNat) (by omega)
  rw [RefTime.headerAt, hmod]
  exact ⟨herr, by rw [hsecond]; omega⟩

/-- `secdiff_from_mark5b` finds out on which side of midnight the header is. -/
theorem secdiffFromMark5b_headerAt (hd : |d| < midnightThreshold) (errref : ℤ) :
    secdiffFromMark5b (t.headerAt header day d) t.toTm errref = (-d, errref) := by
  obtain ⟨herr, hsecond⟩ := t.headerAt_second header day d
  obtain ⟨hlo, hhi⟩ := abs_lt.mp hd
  have hsod := t.secOfDay_bounds
  have hsame : t.hour * 60 * 60 + t.min * 60 + t.sec = t.secOfDay := by
    unfold RefTime.secOfDay
    omega
  have hday : secondsInDay = 86400 := rfl
  have hthreshold : midnightThreshold = 10000 := rfl
  unfold secdiffFromMark5b
  dsimp only
  rw [herr, hsecond, hsame, if_neg (not_not.mpr rfl)]
  refine congrArg (·, errref) ?_
  split_ifs <;> omega

/-- `epochtime_from_mark5b` finds it out in the last hour of a day only. -/
theorem epochtimeFromMark5b_headerAt_iff (hd : |d| < midnightThreshold) :
    epochtimeFromMark5b (t.headerAt header day d) t.toTm = mktime t.toTm + d ↔
      0 ≤ t.secOfDay + d ∧ (86400 ≤ t.secOfDay + d → t.hour = 23) := by
  obtain ⟨herr, hsecond⟩ := t.headerAt_second header day d
  obtain ⟨hlo, hhi⟩ := abs_lt.mp hd
  have hsod := t.secOfDay_bounds
  have hhour := t.hour_bounds
  have htomorrow : t.hour = 23 ↔ 82800 ≤ t.secOfDay := by
    have hmin := t.min_bounds
    have hsec := t.sec_bounds
    unfold RefTime.secOfDay
    omega
  have hday : secondsInDay = 86400 := rfl
  have hthreshold : midnightThreshold = 10000 := rfl
  unfold epochtimeFromMark5b
  dsimp only
  rw [herr, hsecond, if_neg (not_not.mpr rfl), mktime_eq]
  have hn : 0 ≤ (t.secOfDay + d) % 86400 := Int.emod_nonneg _ (by omega)
  split_ifs with hnext hprevious
  · rw [mktime_ofSecond hn, timezone]
    omega
  · omega
  · rw [mktime_ofSecond hn, timezone]
    omega

/-- **Both functions are right** exactly if the header is not from the day before, and
from the next one only in the last hour. -/
theorem headerTime_iff (t : RefTime) (header : Bytes) (day : BitVec 12) (d errref : ℤ)
    (hd : |d| < midnightThreshold) :
    ((secdiffFromMark5b (t.headerAt header day d) t.toTm errref).1 = -d ∧
      epochtimeFromMark5b (t.headerAt header day d) t.toTm = mktime t.toTm + d) ↔
    0 ≤ t.secOfDay + d ∧ (86400 ≤ t.secOfDay + d → t.hour = 23) := by
  rw [secdiffFromMark5b_headerAt hd, epochtimeFromMark5b_headerAt_iff hd]
  exact and_iff_right rfl

end Time

/-- The last second of 1999. -/
def beforeMidnight : RefTime where
  sec := 59
  min := 59
  hour := 23
  mday := 31
  mon := 11
  year := 99
  sec_bounds := by decide
  min_bounds := by decide
  hour_bounds := by decide

/-- A header from two seconds later, in the next year. -/
theorem headerTime_iff_nextYear :
    (secdiffFromMark5b (beforeMidnight.headerAt (fun _ => 0) 0 2) beforeMidnight.toTm 0).1 = -2 ∧
      epochtimeFromMark5b (beforeMidnight.headerAt (fun _ => 0) 0 2) beforeMidnight.toTm =
        mktime beforeMidnight.toTm + 2 :=
  (headerTime_iff beforeMidnight (fun _ => 0) 0 2 0 (by decide)).mpr ⟨by decide, by decide⟩

/-- One second after midnight. -/
def afterMidnight : RefTime where
  sec := 1
  min := 0
  hour := 0
  mday := 1
  mon := 0
  year := 100
  sec_bounds := by decide
  min_bounds := by decide
  hour_bounds := by decide

/-- **A header from before midnight is taken for one of the day.** -/
theorem before_midnight_mistaken :
    ¬ ∀ (t : RefTime) (header : Bytes) (day : BitVec 12) (d errref : ℤ),
      |d| < midnightThreshold →
      (secdiffFromMark5b (t.headerAt header day d) t.toTm errref).1 = -d ∧
        epochtimeFromMark5b (t.headerAt header day d) t.toTm = mktime t.toTm + d := by
  intro hall
  have hright := (epochtimeFromMark5b_headerAt_iff (by decide)).mp
    (hall afterMidnight (fun _ => 0) 0 (-2) 0 (by decide)).2
  exact absurd hright.1 (by decide)

end VlbiStreamer.Datatypes
