import VlbiStreamer.Metadata.Checking
import Mathlib.Data.List.Chain
import Mathlib.Data.Int.ModEq

/-!
# What the check reports

The frames of a stream are numbered by *ticks*: frame `t` of a stream with `F` frames in
a second is frame `t % F` of second `t / F`.  A `Clock` says what the headers of a format
have for a second: VDIF counts on, Mark5B counts the seconds of a day and the days up to
a thousand.

* `Accepted` is a sequence of stamps that the inspectors pass over in silence; it knows
  nothing of ticks.
* `accepted_iff` says which pairs of neighbours are passed over in a stream whose first
  second is complete, so that its rate has been learned.
* `VdifStream` and `Mark5bStream` are streams in order, with some of the later frames
  deleted, as they are read; the second packet of a Mark5B frame may hold anything.

The check should be silent exactly on a complete stream.  `reportsGaps_iff` says when it
is.
-/

namespace VlbiStreamer.Metadata

open Library Receiver Datatypes

/-! ## Silence -/

/-- Two frames in a row, at a rate. -/
def Follows (rate : ℤ) (a b : Stamp) : Prop :=
  if b.framenum = a.framenum + 1 then b.second = a.second ∧ b.day = a.day
  else b.second = a.second + 1 ∧ a.framenum = rate - 1

/-- Frames in a row, at a rate that is learned at the first change of the second. -/
def Accepted : ℤ → Stamp → List Stamp → Prop
  | _, _, [] => True
  | rate, a, b :: l => Follows (learn rate a b) a b ∧ Accepted (learn rate a b) b l

section Silence

variable {rate : ℤ} {a b : Stamp} {l : List Stamp}

theorem discrepancies_eq_nil_iff : discrepancies rate a b = [] ↔ Follows rate a b := by
  unfold discrepancies Follows
  by_cases hnumber : b.framenum = a.framenum + 1
  · rw [if_neg (not_not.mpr hnumber), if_pos hnumber, List.append_eq_nil_iff]
    simp only [ite_eq_right_iff, List.cons_ne_nil, imp_false, not_not]
    exact and_congr eq_comm eq_comm
  · rw [if_pos hnumber, if_neg hnumber]
    by_cases hsecond : b.second = a.second + 1
    · rw [if_neg (not_not.mpr hsecond)]
      simp only [ite_eq_right_iff, List.cons_ne_nil, imp_false, not_not, hsecond, true_and]
    · rw [if_pos hsecond]
      exact iff_of_false (List.cons_ne_nil _ _) fun h => hsecond h.1

/-- **Silence**: nothing is logged of frames in a row, and of others something is. -/
theorem reports_eq_nil_iff : reports rate a l = [] ↔ Accepted rate a l := by
  induction l generalizing rate a with
  | nil => exact iff_of_true rfl trivial
  | cons b l ih => rw [reports, List.append_eq_nil_iff, discrepancies_eq_nil_iff, ih, Accepted]

end Silence

/-! ## Ticks -/

/-- What the headers of a format have for a second. -/
structure Clock where
  second : ℕ → ℕ
  day : ℕ → ℕ
  changes : ∀ n, second (n + 1) ≠ second n

/-- The stamp of a tick. -/
def Clock.stamp (c : Clock) (F t : ℕ) : Stamp := ⟨(t % F : ℕ), c.second (t / F), c.day (t / F)⟩

/-- The last tick of the first complete second. -/
def firstSecondEnd (F t : ℕ) : ℕ := ((t + F - 1) / F + 1) * F - 1

/-- Ticks in order, with all those of the first complete second. -/
def InOrder (F first : ℕ) (rest : List ℕ) : Prop :=
  (first :: rest).IsChain fun t t' => t < t' ∧ (t' = t + 1 ∨ firstSecondEnd F first ≤ t)

/-- No tick is missing. -/
def Complete (ticks : List ℕ) : Prop := ticks.IsChain fun t t' => t' = t + 1

section Ticks

variable {c : Clock} {F first t t' : ℕ} {rest : List ℕ} {rate : ℤ}

/-- The tick after the last of a second is the first of the next. -/
theorem succ_tick (hF : 0 < F) (t : ℕ) :
    ((t + 1) / F = t / F ∧ (t + 1) % F = t % F + 1 ∧ t % F + 1 < F) ∨
    ((t + 1) / F = t / F + 1 ∧ (t + 1) % F = 0 ∧ t % F + 1 = F) := by
  have hlt := Nat.mod_lt t hF
  have hsum := Nat.div_add_mod t F
  rcases Nat.lt_or_ge (t % F + 1) F with hin | hout
  · obtain ⟨hdiv, hmod⟩ : (t + 1) / F = t / F ∧ (t + 1) % F = t % F + 1 :=
      (Nat.div_mod_unique hF).mpr ⟨by omega, hin⟩
    exact Or.inl ⟨hdiv, hmod, hin⟩
  · obtain ⟨hdiv, hmod⟩ : (t + 1) / F = t / F + 1 ∧ (t + 1) % F = 0 :=
      (Nat.div_mod_unique hF).mpr ⟨by rw [Nat.mul_succ]; omega, hF⟩
    exact Or.inr ⟨hdiv, hmod, by omega⟩

/-- The first complete second ends with a last frame. -/
theorem firstSecondEnd_mod (hF : 0 < F) : firstSecondEnd F first % F + 1 = F := by
  unfold firstSecondEnd
  generalize (first + F - 1) / F = n
  have hform : (n + 1) * F - 1 = F - 1 + F * n := by
    rw [Nat.succ_mul, Nat.mul_comm n F]
    omega
  rw [hform, Nat.add_mul_mod_self_left, Nat.mod_eq_of_lt (by omega)]
  omega

/-- It does not end before the second of the first frame. -/
theorem le_firstSecondEnd (hF : 0 < F) (h : t / F = first / F) : t ≤ firstSecondEnd F first := by
  have hlt : t < (t / F + 1) * F := Nat.lt_mul_of_div_lt (Nat.lt_succ_self _) hF
  have hle : first / F ≤ (first + F - 1) / F := Nat.div_le_div_right (by omega)
  have hmul : (first / F + 1) * F ≤ ((first + F - 1) / F + 1) * F :=
    Nat.mul_le_mul_right F (by omega)
  unfold firstSecondEnd
  rw [h] at hlt
  omega

/-- The rate has been learned, or the second is still the first. -/
def Learned (F first t : ℕ) (rate : ℤ) : Prop :=
  rate = F ∨ rate = 0 ∧ t / F = first / F ∧ t ≤ firstSecondEnd F first

/-- One tick on. -/
theorem Learned.step (hF : 0 < F) (h : Learned F first t rate)
    (hnext : t' = t + 1 ∨ firstSecondEnd F first ≤ t) :
    (Follows (learn rate (c.stamp F t) (c.stamp F t')) (c.stamp F t) (c.stamp F t') ↔
      Follows F (c.stamp F t) (c.stamp F t')) ∧
    (Follows F (c.stamp F t) (c.stamp F t') →
      Learned F first t' (learn rate (c.stamp F t) (c.stamp F t'))) := by
  rcases h with rfl | ⟨rfl, hdiv, hle⟩
  · have hlearn : learn F (c.stamp F t) (c.stamp F t') = F := if_neg fun h => by omega
    rw [hlearn]
    exact ⟨Iff.rfl, fun _ => Or.inl rfl⟩
  by_cases hsecond : (c.stamp F t).second = (c.stamp F t').second
  · -- the second is the same: either they are neighbours, or neither follows
    have hlearn : learn 0 (c.stamp F t) (c.stamp F t') = 0 := if_neg fun h => h.2 hsecond
    rw [hlearn]
    have hstamps : ¬ (c.second (t' / F) : ℤ) = c.second (t / F) + 1 := by
      have hsame : (c.second (t / F) : ℤ) = c.second (t' / F) := hsecond
      omega
    rcases hnext with rfl | hend
    · rcases succ_tick hF t with ⟨hsame, hmod, -⟩ | ⟨hother, -, -⟩
      · have hfollows : ∀ r, Follows r (c.stamp F t) (c.stamp F (t + 1)) := by
          intro r
          rw [Follows, if_pos (by simp only [Clock.stamp, hmod]; push_cast; rfl), Clock.stamp,
            Clock.stamp, hsame]
          exact ⟨rfl, rfl⟩
        refine ⟨iff_of_true (hfollows 0) (hfollows F), fun _ => Or.inr ⟨rfl, ?_, ?_⟩⟩
        · rw [hsame, hdiv]
        · exact le_firstSecondEnd hF (hsame.trans hdiv)
      · have heq : (c.second (t / F) : ℤ) = c.second ((t + 1) / F) := hsecond
        rw [hother, Int.natCast_inj] at heq
        exact absurd heq.symm (c.changes _)
    · have hmod : firstSecondEnd F first % F + 1 = F := firstSecondEnd_mod hF
      rw [le_antisymm hend hle] at hmod
      have hlt := Nat.mod_lt t' hF
      have hno : ∀ r, ¬ Follows r (c.stamp F t) (c.stamp F t') := by
        intro r
        rw [Follows, if_neg (by simp only [Clock.stamp]; omega)]
        exact fun h => hstamps h.1
      exact ⟨iff_of_false (hno 0) (hno F), fun h => absurd h (hno F)⟩
  · have hlast : t % F + 1 = F := by
      rcases hnext with rfl | hend
      · rcases succ_tick hF t with ⟨hsame, -, -⟩ | ⟨-, -, hlast⟩
        · exact absurd (by rw [Clock.stamp, Clock.stamp, hsame]) hsecond
        · exact hlast
      · rw [le_antisymm hle hend]
        exact firstSecondEnd_mod hF
    have hlearn : learn 0 (c.stamp F t) (c.stamp F t') = F := by
      rw [learn, if_pos ⟨rfl, hsecond⟩]
      show ((t % F : ℕ) : ℤ) + 1 = F
      omega
    rw [hlearn]
    exact ⟨Iff.rfl, fun _ => Or.inl rfl⟩

/-- **Silence on ticks**: every two neighbours have to follow at the rate. -/
theorem accepted_iff (hF : 0 < F) (h : Learned F first t rate)
    (hin : (t :: rest).IsChain fun t t' => t' = t + 1 ∨ firstSecondEnd F first ≤ t) :
    Accepted rate (c.stamp F t) (rest.map (c.stamp F)) ↔
      (t :: rest).IsChain fun t t' => Follows F (c.stamp F t) (c.stamp F t') := by
  induction rest generalizing t rate with
  | nil => exact iff_of_true trivial (List.isChain_singleton _)
  | cons t' rest ih =>
      obtain ⟨hnext, hrest⟩ := List.isChain_cons_cons.mp hin
      obtain ⟨hfollows, hlearned⟩ := h.step (c := c) hF hnext
      rw [List.map_cons, Accepted, List.isChain_cons_cons, hfollows]
      exact and_congr_right fun hok => ih (hlearned hok) hrest

theorem follows_stamp_iff (hF : 0 < F) :
    Follows F (c.stamp F t) (c.stamp F t') ↔
      (t' % F = t % F + 1 ∧ c.second (t' / F) = c.second (t / F) ∧
        c.day (t' / F) = c.day (t / F)) ∨
      (t % F + 1 = F ∧ c.second (t' / F) = c.second (t / F) + 1) := by
  have hlt' := Nat.mod_lt t' hF
  by_cases hnumber : t' % F = t % F + 1
  · rw [Follows, if_pos (by simp only [Clock.stamp, hnumber]; push_cast; rfl)]
    simp only [Clock.stamp, Int.natCast_inj]
    constructor
    · exact fun h => Or.inl ⟨hnumber, h⟩
    · rintro (⟨-, h⟩ | ⟨hlast, -⟩)
      · exact h
      · omega
  · rw [Follows, if_neg (by simp only [Clock.stamp]; omega)]
    simp only [Clock.stamp]
    constructor
    · rintro ⟨hsecond, hlast⟩
      exact Or.inr ⟨by omega, by omega⟩
    · rintro (⟨h, -⟩ | ⟨hlast, hsecond⟩)
      · exact absurd h hnumber
      · exact ⟨by omega, by omega⟩

/-! ### VDIF -/

/-- VDIF seconds go on, and the reference epoch is not decoded. -/
def vdifClock : Clock := ⟨id, fun _ => 0, fun n => (Nat.lt_succ_self n).ne'⟩

/-- A gap from the last frame of a second into the next second is passed over. -/
theorem vdif_follows_iff (hF : 0 < F) (hlt : t < t') :
    Follows F (vdifClock.stamp F t) (vdifClock.stamp F t') ↔
      t' = t + 1 ∨ t % F + 1 = F ∧ t' / F = t / F + 1 := by
  have hsum := Nat.div_add_mod t F
  have hsum' := Nat.div_add_mod t' F
  rw [follows_stamp_iff hF]
  constructor
  · rintro (⟨hnumber, hsecond, -⟩ | hgap)
    · rw [show t' / F = t / F from hsecond] at hsum'
      exact Or.inl (by omega)
    · exact Or.inr hgap
  · rintro (rfl | hgap)
    · rcases succ_tick hF t with ⟨hsame, hmod, -⟩ | ⟨hother, -, hlast⟩
      · exact Or.inl ⟨hmod, hsame, rfl⟩
      · exact Or.inr ⟨hlast, hother⟩
    · exact Or.inr hgap

/-! ### Mark5B -/

/-- Mark5B has the second of the day and three digits of the day. -/
def mark5bClock : Clock :=
  ⟨fun n => n % 86400, fun n => n / 86400 % 1000, fun n => by omega⟩

/-- The neighbours that are passed over in a Mark5B stream. -/
def Mark5bPasses (F t t' : ℕ) : Prop :=
  if t % F + 1 = F then t' / F % 86400 = t / F % 86400 + 1
  else t' ≡ t + 1 [MOD F * 86400000]

/-- Ticks whose stamps go on within a second. -/
theorem modEq_succ_iff (hin : t % F + 1 < F) (M : ℕ) :
    t' ≡ t + 1 [MOD F * M] ↔ t' % F = t % F + 1 ∧ t' / F % M = t / F % M := by
  have hF : 0 < F := by omega
  obtain ⟨hdiv, hmod⟩ : (t + 1) / F = t / F ∧ (t + 1) % F = t % F + 1 := by
    rcases succ_tick hF t with ⟨hdiv, hmod, -⟩ | ⟨-, -, hlast⟩
    · exact ⟨hdiv, hmod⟩
    · omega
  have hlt := Nat.mod_lt t' hF
  rw [Nat.ModEq, Nat.mod_mul, Nat.mod_mul, hdiv, hmod]
  constructor
  · intro heq
    have hlow := congrArg (· % F) heq
    simp only [Nat.add_mul_mod_self_left, Nat.mod_mod, Nat.mod_eq_of_lt hin] at hlow
    rw [hlow, Nat.add_left_cancel_iff] at heq
    exact ⟨hlow, Nat.eq_of_mul_eq_mul_left hF heq⟩
  · rintro ⟨hnumber, hsecond⟩
    rw [hnumber, hsecond]

theorem mark5b_follows_iff (hF : 0 < F) :
    Follows F (mark5bClock.stamp F t) (mark5bClock.stamp F t') ↔ Mark5bPasses F t t' := by
  have hlt := Nat.mod_lt t hF
  have hlt' := Nat.mod_lt t' hF
  rw [follows_stamp_iff hF]
  simp only [mark5bClock]
  by_cases hlast : t % F + 1 = F
  · rw [Mark5bPasses, if_pos hlast]
    constructor
    · rintro (⟨hnumber, -⟩ | ⟨-, hsecond⟩)
      · omega
      · exact hsecond
    · exact fun hsecond => Or.inr ⟨hlast, hsecond⟩
  · rw [Mark5bPasses, if_neg hlast, modEq_succ_iff (by omega)]
    constructor
    · rintro (⟨hnumber, hsecond, hday⟩ | ⟨h, -⟩)
      · exact ⟨hnumber, by omega⟩
      · exact absurd h hlast
    · rintro ⟨hnumber, hboth⟩
      exact Or.inl ⟨hnumber, by omega, by omega⟩

/-- The next tick is passed over unless a day begins with it. -/
theorem mark5bPasses_succ_iff (hF : 0 < F) :
    Mark5bPasses F t (t + 1) ↔ ¬ F * 86400 ∣ t + 1 := by
  rcases succ_tick hF t with ⟨-, hmod, hin⟩ | ⟨hdiv, hmod, hlast⟩
  · rw [Mark5bPasses, if_neg (by omega)]
    refine iff_of_true rfl fun hdvd => ?_
    have hzero := Nat.mod_eq_zero_of_dvd (Dvd.dvd.trans (Nat.dvd_mul_right F 86400) hdvd)
    omega
  · have hsum := Nat.div_add_mod (t + 1) F
    rw [hmod, hdiv, Nat.add_zero] at hsum
    rw [Mark5bPasses, if_pos hlast, hdiv, ← hsum, Nat.mul_dvd_mul_iff_left hF]
    omega

/-- A complete stream is passed over unless a day begins in it. -/
theorem isChain_passes_iff (hF : 0 < F) (h : Complete (t :: rest)) :
    (t :: rest).IsChain (Mark5bPasses F) ↔ ∀ t' ∈ rest, ¬ F * 86400 ∣ t' := by
  induction rest generalizing t with
  | nil => exact iff_of_true (.singleton t) fun _ h => absurd h List.not_mem_nil
  | cons t' rest ih =>
      obtain ⟨rfl, hrest⟩ := List.isChain_cons_cons.mp h
      rw [List.isChain_cons_cons, ih hrest, mark5bPasses_succ_iff hF, List.forall_mem_cons]

end Ticks

/-- Relations that are the same on the neighbours. -/
theorem isChain_congr {α : Type} {Q R R' : α → α → Prop} {l : List α} (hl : l.IsChain Q)
    (h : ∀ a b, Q a b → (R a b ↔ R' a b)) : l.IsChain R ↔ l.IsChain R' := by
  induction hl with
  | nil => exact iff_of_true .nil .nil
  | singleton a => exact iff_of_true (.singleton a) (.singleton a)
  | cons_cons hab hl ih =>
      rw [List.isChain_cons_cons, List.isChain_cons_cons, ih, h _ _ hab]

/-! ## VDIF streams -/

/-- A VDIF stream in order, of which later frames may be missing. -/
structure VdifStream where
  /-- The frames in a second. -/
  rate : ℕ
  rate_pos : 0 < rate
  first : ℕ
  rest : List ℕ
  inOrder : InOrder rate first rest
  /-- The frame of a tick. -/
  frame : ℕ → Bytes
  second : ∀ t ∈ first :: rest, (word32be (frame t) 0).toNat % 2 ^ 30 = t / rate
  framenum : ∀ t ∈ first :: rest, (word32be (frame t) 4).toNat % 2 ^ 24 = t % rate

namespace VdifStream

variable (S : VdifStream)

/-- What the check logs. -/
def logged : Option (List Inconsistency) :=
  (vdifCheck (S.frame S.first) (S.rest.map S.frame)).map VdifElement.logged

/-- The check is silent on a complete stream and on no other. -/
def ReportsGaps : Prop :=
  (Complete (S.first :: S.rest) → S.logged = some []) ∧
  (¬ Complete (S.first :: S.rest) → ∃ l, S.logged = some l ∧ l ≠ [])

/-- If frames are missing, then not only first frames of a second right after the last
frame of the second before. -/
def GapShows : Prop :=
  ¬ Complete (S.first :: S.rest) →
    ¬ (S.first :: S.rest).IsChain fun t t' =>
      t' = t + 1 ∨ t % S.rate + 1 = S.rate ∧ t' / S.rate = t / S.rate + 1

theorem stamp_frame {t : ℕ} (ht : t ∈ S.first :: S.rest) :
    vdifStamp (S.frame t) = vdifClock.stamp S.rate t := by
  have hsecond := S.second t ht
  have hframenum := S.framenum t ht
  have hseconds : (getVdifSeconds (S.frame t)).toNat = t / S.rate := by
    rw [getVdifSeconds, BitVec.and_comm, ← hsecond]
    exact toNat_and_mask (k := 30) _ (by omega)
  have hframe : (word32be (S.frame t) 4 &&& 0x00ffffff).toNat = t % S.rate := by
    rw [← hframenum]
    exact toNat_and_mask (k := 24) _ (by omega)
  rw [vdifStamp, framenumFromVdif, hframe,
    BitVec.toInt_eq_toNat_of_lt (by rw [hseconds, ← hsecond]; omega), hseconds]
  rfl

theorem logged_eq : S.logged = some (reports 0 (vdifClock.stamp S.rate S.first)
    (S.rest.map (vdifClock.stamp S.rate))) := by
  have hrest : S.rest.map (vdifStamp ∘ S.frame) = S.rest.map (vdifClock.stamp S.rate) :=
    List.map_congr_left fun t ht => S.stamp_frame (List.mem_cons_of_mem _ ht)
  rw [logged, vdifCheck_eq, List.map_map, hrest, S.stamp_frame List.mem_cons_self]

/-- The check of a VDIF stream is silent if the gaps are of that kind. -/
theorem silent_iff : S.logged = some [] ↔
    (S.first :: S.rest).IsChain fun t t' =>
      t' = t + 1 ∨ t % S.rate + 1 = S.rate ∧ t' / S.rate = t / S.rate + 1 := by
  rw [logged_eq, Option.some_inj, reports_eq_nil_iff,
    accepted_iff S.rate_pos (Or.inr ⟨rfl, rfl, le_firstSecondEnd S.rate_pos rfl⟩)
      (S.inOrder.imp fun _ _ h => h.2)]
  exact isChain_congr S.inOrder fun _ _ h => vdif_follows_iff S.rate_pos h.1

theorem reportsGaps_iff : S.ReportsGaps ↔ S.GapShows := by
  have hsilent := S.silent_iff
  constructor
  · rintro ⟨-, hreports⟩ hgap hchain
    obtain ⟨l, hlogged, hne⟩ := hreports hgap
    rw [hsilent.mpr hchain] at hlogged
    exact hne (Option.some.inj hlogged).symm
  · intro hshows
    refine ⟨fun hcomplete => ?_, fun hgap => ?_⟩
    · exact hsilent.mpr (hcomplete.imp fun _ _ => Or.inl)
    · refine ⟨_, S.logged_eq, fun hnil => hshows hgap (hsilent.mp ?_)⟩
      rw [logged_eq, hnil]

end VdifStream

/-! ## Mark5B streams -/

/-- The second packet of a frame. -/
def secondHalf (frame : Bytes) : Bytes := fun x => frame (5008 + x)

/-- A Mark5B stream in order, of which later frames may be missing. -/
structure Mark5bStream where
  /-- The frames in a second. -/
  rate : ℕ
  rate_pos : 0 < rate
  first : ℕ
  rest : List ℕ
  inOrder : InOrder rate first rest
  /-- The frame of a tick. -/
  frame : ℕ → Bytes
  sync : ∀ t ∈ first :: rest, word32 (frame t) 0 = mark5bSyncword
  framenum : ∀ t ∈ first :: rest, (word32 (frame t) 4).toNat % 2 ^ 15 = t % rate
  second : ∀ t ∈ first :: rest,
    (word32 (frame t) 8).toNat % 2 ^ 20 = bcd (t / rate % 86400)
  day : ∀ t ∈ first :: rest,
    (word32 (frame t) 8).toNat / 2 ^ 20 = bcd (t / rate / 86400 % 1000)

namespace Mark5bStream

variable (S : Mark5bStream)

/-- The packets after the first. -/
def packets : List Bytes :=
  secondHalf (S.frame S.first) :: S.rest.flatMap fun t => [S.frame t, secondHalf (S.frame t)]

/-- What the check logs. -/
def logged : Option (List Inconsistency) :=
  (mark5bCheck false (S.frame S.first) S.packets).map Mark5bElement.logged

/-- The check is silent on a complete stream and on no other. -/
def ReportsGaps : Prop :=
  (Complete (S.first :: S.rest) → S.logged = some []) ∧
  (¬ Complete (S.first :: S.rest) → ∃ l, S.logged = some l ∧ l ≠ [])

/-- No second packet begins with the sync word. -/
def Clean : Prop := ∀ t ∈ S.first :: S.rest, syncwordCheck (secondHalf (S.frame t)) = false

theorem stamp_frame {t : ℕ} (ht : t ∈ S.first :: S.rest) :
    mark5bStamp (S.frame t) = mark5bClock.stamp S.rate t := by
  have hframenum : (framenumFromMark5b (S.frame t)).toNat = t % S.rate := by
    rw [HeaderField.framenumFromMark5b_toNat, S.framenum t ht]
  have hsecond : (secondFromMark5b (S.frame t)).toNat = bcd (t / S.rate % 86400) := by
    rw [← S.second t ht]
    exact toNat_and_mask (k := 20) _ (by omega)
  have hday : (dayFromMark5b (S.frame t)).toNat = bcd (t / S.rate / 86400 % 1000) := by
    have hfield : (dayFromMark5b (S.frame t)).toNat = _ :=
      toNat_and_mask_ushiftRight (j := 20) (k := 12) (word32 (S.frame t) 8) (by omega)
    have hlt := (word32 (S.frame t) 8).isLt
    rw [hfield, BitVec.extractLsb'_toNat, Nat.shiftRight_eq_div_pow, ← S.day t ht]
    omega
  unfold mark5bStamp getSecAndDayFromMark5b
  rw [hframenum, hsecond, hday, atoiHex_bcd, atoiHex_bcd]
  rfl

/-- The packets that begin like a header, after the first. -/
def headers : List Stamp := (S.packets.filter syncwordCheck).map mark5bStamp

theorem logged_eq :
    S.logged = some (reports 0 (mark5bClock.stamp S.rate S.first) S.headers) := by
  have hsync : syncwordCheck (S.frame S.first) := by
    rw [syncwordCheck, S.sync _ List.mem_cons_self]
    exact decide_eq_true rfl
  rw [logged, mark5bCheck_eq hsync, S.stamp_frame List.mem_cons_self]
  rfl

theorem silent_iff :
    S.logged = some [] ↔ Accepted 0 (mark5bClock.stamp S.rate S.first) S.headers := by
  rw [logged_eq, Option.some_inj, reports_eq_nil_iff]

theorem reportsGaps_iff_accepted : S.ReportsGaps ↔
    (Accepted 0 (mark5bClock.stamp S.rate S.first) S.headers ↔
      Complete (S.first :: S.rest)) := by
  rw [← silent_iff]
  constructor
  · rintro ⟨hcomplete, hgap⟩
    refine ⟨fun hsilent => ?_, hcomplete⟩
    by_contra hmissing
    obtain ⟨l, hlogged, hne⟩ := hgap hmissing
    rw [hsilent] at hlogged
    exact hne (Option.some.inj hlogged).symm
  · intro hiff
    refine ⟨hiff.mpr, fun hmissing => ⟨_, S.logged_eq, fun hnil => hmissing (hiff.mp ?_)⟩⟩
    rw [logged_eq, hnil]

/-- In a clean stream the headers are those of the frames. -/
theorem Clean.headers_eq {S : Mark5bStream} (h : S.Clean) :
    S.headers = S.rest.map (mark5bClock.stamp S.rate) := by
  have hrest : ∀ l ⊆ S.rest,
      ((l.flatMap fun t => [S.frame t, secondHalf (S.frame t)]).filter syncwordCheck).map
        mark5bStamp = l.map (mark5bClock.stamp S.rate) := by
    intro l hl
    induction l with
    | nil => rfl
    | cons t l ih =>
        obtain ⟨ht, hl⟩ := List.cons_subset.mp hl
        have hmem : t ∈ S.first :: S.rest := List.mem_cons_of_mem _ ht
        have hsync : syncwordCheck (S.frame t) := by
          rw [syncwordCheck, S.sync t hmem]
          exact decide_eq_true rfl
        rw [List.flatMap_cons, List.filter_append, List.map_append, ih hl,
          List.filter_cons_of_pos hsync, List.filter_cons_of_neg (by rw [h t hmem]; simp)]
        simp only [List.filter_nil, List.map_cons, List.map_nil, List.singleton_append,
          S.stamp_frame hmem]
  unfold headers packets
  rw [List.filter_cons_of_neg (by rw [h _ List.mem_cons_self]; simp)]
  exact hrest S.rest (List.Subset.refl _)

/-- Ticks are checked like those of the format. -/
theorem Clean.accepted_iff {S : Mark5bStream} (h : S.Clean) :
    Accepted 0 (mark5bClock.stamp S.rate S.first) S.headers ↔
      (S.first :: S.rest).IsChain (Mark5bPasses S.rate) := by
  rw [h.headers_eq, Metadata.accepted_iff S.rate_pos
    (Or.inr ⟨rfl, rfl, le_firstSecondEnd S.rate_pos rfl⟩) (S.inOrder.imp fun _ _ h => h.2)]
  exact isChain_congr S.inOrder fun _ _ _ => mark5b_follows_iff S.rate_pos

/-- Of a clean stream: if no frames are missing, no day begins in it; if some are, two
neighbours are not passed over.  Otherwise the packets that begin like a header have to be
accepted just if no frames are missing. -/
def GapShows : Prop :=
  (S.Clean →
    (Complete (S.first :: S.rest) → ∀ t ∈ S.rest, ¬ S.rate * 86400 ∣ t) ∧
    (¬ Complete (S.first :: S.rest) →
      ¬ (S.first :: S.rest).IsChain (Mark5bPasses S.rate))) ∧
  (¬ S.Clean →
    (Accepted 0 (mark5bClock.stamp S.rate S.first) S.headers ↔ Complete (S.first :: S.rest)))

theorem reportsGaps_iff : S.ReportsGaps ↔ S.GapShows := by
  rw [reportsGaps_iff_accepted, GapShows]
  by_cases hclean : S.Clean
  · simp only [hclean, true_implies, not_true, false_implies, and_true]
    rw [hclean.accepted_iff]
    by_cases hcomplete : Complete (S.first :: S.rest)
    · simp only [hcomplete, iff_true, true_implies, not_true, false_implies, and_true]
      exact isChain_passes_iff S.rate_pos hcomplete
    · simp only [hcomplete, iff_false, false_implies, not_false_eq_true, true_implies, true_and]
  · simp only [hclean, false_implies, not_false_eq_true, true_implies, true_and]

end Mark5bStream

/-- **The check reports exactly the gaps** if they show. -/
theorem reports_exactly_gaps_iff (S : VdifStream) (T : Mark5bStream) :
    (S.ReportsGaps ↔ S.GapShows) ∧ (T.ReportsGaps ↔ T.GapShows) :=
  ⟨S.reportsGaps_iff, T.reportsGaps_iff⟩

/-! ### A gap that does not show -/

/-- A frame of two in a second. -/
def exampleFrame (t : ℕ) : Bytes :=
  setWord32be (setWord32be (fun _ => 0) 0 (BitVec.ofNat 32 (t / 2))) 4 (BitVec.ofNat 32 (t % 2))

/-- Two frames in a second, without the first of the second one. -/
def exampleGap : VdifStream where
  rate := 2
  rate_pos := Nat.two_pos
  first := 0
  rest := [1, 3]
  inOrder := .cons_cons (by decide) (.cons_cons (by decide) (.singleton _))
  frame := exampleFrame
  second := by decide
  framenum := by decide

/-- **A missing first frame is not reported.** -/
theorem missing_frame_not_reported :
    ¬ ((∀ S : VdifStream, S.ReportsGaps) ∧ ∀ S : Mark5bStream, S.ReportsGaps) := by
  rintro ⟨hall, -⟩
  have hmissing : ¬ Complete [0, 1, 3] := by
    intro hchain
    have hlast : 3 = 1 + 1 := ((List.isChain_cons_cons.mp hchain).2.rel)
    omega
  obtain ⟨l, hlogged, hne⟩ := (hall exampleGap).2 hmissing
  have hsilent : exampleGap.logged = some [] := exampleGap.silent_iff.mpr
    (.cons_cons (by decide) (.cons_cons (by decide) (.singleton _)))
  rw [hsilent] at hlogged
  exact hne (Option.some.inj hlogged).symm

end VlbiStreamer.Metadata
