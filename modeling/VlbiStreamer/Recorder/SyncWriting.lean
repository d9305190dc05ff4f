import Mathlib.Data.List.Range
import VlbiStreamer.Library.Looping
import VlbiStreamer.Recorder.WriteBuffer

/-!
# The synchronous write loop

`sbuf_sync_loop` runs over the buffer until `diff` is zero.  Here its turns are looked at one
by one, with the writes that were made: where each started, how long it was asked to be, and
how much of it the back end took.

`writesOnce_iff` says when every byte is written once: as long as the aligned tail of the
buffer is taken as a whole or not past its data, and no unaligned tail meets the assertion on
single files.  A tail that is taken in part, but with some of its padding, makes `diff` wrap.
-/

namespace VlbiStreamer.Recorder

open Library

/-- A write that was made: the first `ret` of the bytes asked for, from `start` on, counted
from the start of the buffer. -/
structure Written where
  start : ℤ
  req : Request
  ret : ℤ

/-- `n` bytes from `start` on. -/
def stretch (start : ℤ) (n : ℕ) : List ℤ := (List.range n).map fun i : ℕ => start + (i : ℤ)

/-- The bytes that the back end took. -/
def Written.bytes (w : Written) : List ℤ := stretch w.start w.ret.toNat

/-- The loop between two turns, with the writes made so far. -/
structure Writing where
  sbuf : Sbuf
  log : List Written

namespace Writing

/-- One turn of `sbuf_sync_loop`; write number `n` of the loop returns `rets n`. -/
def syncTurn (o : Opt) (rets : ℕ → ℤ) (w : Writing) : Turn Writing (Outcome × List Written) :=
  if w.sbuf.diff = 0 then .stop (.returned 0 w.sbuf, w.log)
  else match simpleWriteBytes o w.sbuf with
    | none => .stop (.aborted, w.log)
    | some req =>
        let (err, s') := writeAnswered req w.sbuf (rets w.log.length)
        let log := w.log ++ [⟨w.sbuf.bufoffset, req, rets w.log.length⟩]
        if err = 0 then .again ⟨s', log⟩ else .stop (.returned (-1) s', log)

/-- The loop is entered. -/
def entered (s : Sbuf) : Writing := ⟨s, []⟩

variable (o : Opt) (rets : ℕ → ℤ) (s : Sbuf)

/-- Every write takes something and not more than was asked for. -/
def Legal : Prop :=
  ∀ w, Reaches (syncTurn o rets) (entered s) w → w.sbuf.diff ≠ 0 →
    ∀ req, simpleWriteBytes o w.sbuf = some req →
      0 < rets w.log.length ∧ rets w.log.length ≤ req.count.toNat

/-- The writes cover the `size` bytes from `start` on one after the other, and only the last
one goes on into the padding of its block. -/
def Covers (start : ℤ) (size : ℕ) (log : List Written) : Prop :=
  ∃ pad < blockAlign, log.flatMap Written.bytes = stretch start (size + pad) ∧
    ∀ w ∈ log.dropLast, w.start + w.ret ≤ start + size

/-- The buffer is written once: what is done and what is left make up the buffer before every
turn, and the loop returns when nothing is left and the writes cover the buffer. -/
structure WritesOnce : Prop where
  balance : ∀ w, Reaches (syncTurn o rets) (entered s) w →
    w.sbuf.bufoffset - s.bufoffset + w.sbuf.diff.toNat = s.diff.toNat
  ends : ∃ s' log, Ends (syncTurn o rets) (entered s) (.returned 0 s', log) ∧
    s'.diff = 0 ∧ Covers s.bufoffset s.diff.toNat log

/-- The chunk before the loop is written within the data or as a whole, and it is not the
unaligned tail of a recording into one file. -/
def Clear : Prop :=
  ∀ w, Reaches (syncTurn o rets) (entered s) w → w.sbuf.diff ≠ 0 →
    ∃ req, simpleWriteBytes o w.sbuf = some req ∧
      (rets w.log.length ≤ w.sbuf.diff.toNat ∨ rets w.log.length = req.count.toNat)

section Results

variable {o : Opt} {rets : ℕ → ℤ} {s s' : Sbuf} {req : Request} {w w' : Writing} {ret : ℤ}

/-! ## The turn -/

theorem syncTurn_done (h : w.sbuf.diff = 0) :
    syncTurn o rets w = .stop (.returned 0 w.sbuf, w.log) := by
  unfold syncTurn
  rw [if_pos h]

theorem syncTurn_aborted (hdiff : w.sbuf.diff ≠ 0) (h : simpleWriteBytes o w.sbuf = none) :
    syncTurn o rets w = .stop (.aborted, w.log) := by
  unfold syncTurn
  rw [if_neg hdiff, h]

/-- A turn that writes a chunk. -/
theorem syncTurn_wrote (rets : ℕ → ℤ) (hdiff : w.sbuf.diff ≠ 0)
    (h : simpleWriteBytes o w.sbuf = some req) :
    syncTurn o rets w =
      if (writeAnswered req w.sbuf (rets w.log.length)).1 = 0 then
        .again ⟨(writeAnswered req w.sbuf (rets w.log.length)).2,
          w.log ++ [⟨w.sbuf.bufoffset, req, rets w.log.length⟩]⟩
      else
        .stop (.returned (-1) (writeAnswered req w.sbuf (rets w.log.length)).2,
          w.log ++ [⟨w.sbuf.bufoffset, req, rets w.log.length⟩]) := by
  unfold syncTurn
  rw [if_neg hdiff, h]

/-- A turn whose write takes something. -/
theorem syncTurn_took (hdiff : w.sbuf.diff ≠ 0) (h : simpleWriteBytes o w.sbuf = some req)
    (hret : 0 < rets w.log.length) :
    syncTurn o rets w =
      .again ⟨(writeAnswered req w.sbuf (rets w.log.length)).2,
        w.log ++ [⟨w.sbuf.bufoffset, req, rets w.log.length⟩]⟩ := by
  have hok : (writeAnswered req w.sbuf (rets w.log.length)).1 = 0 :=
    (writeAnswered_spec h (by unfold eof; omega)).1.mpr hret.le
  rw [syncTurn_wrote rets hdiff h, if_pos hok]

/-- The loop is the one of the transcripts: it makes the writes of the log. -/
theorem syncLoop_of_ends {out : Outcome} {log : List Written}
    (h : Ends (syncTurn o rets) (entered s) (out, log)) :
    syncLoop o (log.map fun w => .write w.ret) s = some out := by
  suffices hmore : ∀ w : Writing, Ends (syncTurn o rets) w (out, log) →
      ∃ more, log = w.log ++ more ∧
        syncLoop o (more.map fun w => .write w.ret) w.sbuf = some out by
    obtain ⟨more, hlog, hrun⟩ := hmore _ h
    rw [hlog]
    exact hrun
  rintro w ⟨fuel, hrun⟩
  induction fuel generalizing w with
  | zero => cases hrun
  | succ fuel ih =>
      by_cases hdiff : w.sbuf.diff = 0
      · rw [runLoop_stop (syncTurn_done hdiff)] at hrun
        obtain ⟨rfl, rfl⟩ := Prod.mk.inj (Option.some.inj hrun)
        refine ⟨[], (List.append_nil _).symm, ?_⟩
        show some (if w.sbuf.diff = 0 then _ else _) = _
        rw [if_pos hdiff]
      cases hreq : simpleWriteBytes o w.sbuf with
      | none =>
          rw [runLoop_stop (syncTurn_aborted hdiff hreq)] at hrun
          obtain ⟨rfl, rfl⟩ := Prod.mk.inj (Option.some.inj hrun)
          refine ⟨[], (List.append_nil _).symm, ?_⟩
          show some (if w.sbuf.diff = 0 then _ else atChunk o w.sbuf) = _
          rw [if_neg hdiff, atChunk, hreq]
          rfl
      | some req =>
          have hturn := syncTurn_wrote rets hdiff hreq
          by_cases hok : (writeAnswered req w.sbuf (rets w.log.length)).1 = 0
          · rw [if_pos hok] at hturn
            rw [runLoop_again hturn] at hrun
            obtain ⟨more, rfl, hloop⟩ := ih _ hrun
            refine ⟨_ :: more, List.append_assoc .., ?_⟩
            rw [List.map_cons, syncLoop, if_neg hdiff, hreq]
            show (if (writeAnswered req w.sbuf (rets w.log.length)).1 = 0 then _ else _) = _
            rw [if_pos hok]
            exact hloop
          · rw [if_neg hok] at hturn
            rw [runLoop_stop hturn] at hrun
            obtain ⟨rfl, rfl⟩ := Prod.mk.inj (Option.some.inj hrun)
            refine ⟨[_], rfl, ?_⟩
            rw [List.map_cons, syncLoop, if_neg hdiff, hreq]
            show (if (writeAnswered req w.sbuf (rets w.log.length)).1 = 0 then _ else _) = _
            rw [if_neg hok]
            rfl

/-! ## The chunk -/

theorem toNat_ofInt_of_le (hret : 0 < ret) (hle : ret ≤ req.count.toNat) :
    (BitVec.ofInt 64 ret).toNat = ret.toNat := by
  have hlt := req.count.isLt
  rw [BitVec.toNat_ofInt]
  omega

/-- **What a write that takes `ret` bytes does**, when it stays within the data or takes the
chunk as a whole: `pad` bytes of it are padding. -/
theorem writeAnswered_took (h : simpleWriteBytes o s = some req) (hdiff : s.diff ≠ 0)
    (hret : 0 < ret) (hle : ret ≤ req.count.toNat)
    (hclear : ret ≤ s.diff.toNat ∨ ret = req.count.toNat) :
    ∃ done pad : ℕ, ret = done + pad ∧ 0 < done ∧ pad < blockAlign ∧
      (writeAnswered req s ret).2.diff.toNat + done = s.diff.toNat ∧
      (writeAnswered req s ret).2.bufoffset = s.bufoffset + done ∧
      ((writeAnswered req s ret).2.diff ≠ 0 → pad = 0) := by
  have hpos : 0 < s.diff.toNat := BitVec.toNat_pos_of_ne_zero hdiff
  have hofInt := toNat_ofInt_of_le hret hle
  have heof : ret ≠ eof := by
    unfold eof
    omega
  unfold writeAnswered
  rw [if_neg heof, if_neg (by omega), if_neg (by omega)]
  by_cases hcount : BitVec.ofInt 64 ret = req.count
  · have hwhole : ret = req.count.toNat := by
      rw [← hcount, hofInt]
      omega
    rw [if_neg (not_not.mpr hcount)]
    rcases simpleWriteBytes_parts h (by omega) with ⟨hdata, hfits⟩ | ⟨hdata, hfits, hpad⟩
    · refine ⟨ret.toNat, 0, by omega, by omega, by decide, ?_, ?_, fun _ => rfl⟩
      · show (s.diff - req.origcount).toNat + _ = _
        rw [← hdata, BitVec.toNat_sub_of_le hfits]
        omega
      · show s.bufoffset + (req.origcount.toNat : ℤ) = _
        rw [← hdata]
        omega
    · refine ⟨s.diff.toNat, ret.toNat - s.diff.toNat, by omega, hpos, by omega, ?_, ?_, ?_⟩
      · show (s.diff - req.origcount).toNat + _ = _
        rw [hdata, BitVec.sub_self]
        exact Nat.zero_add _
      · show s.bufoffset + (req.origcount.toNat : ℤ) = _
        rw [hdata]
      · intro hleft
        refine absurd ?_ hleft
        show s.diff - req.origcount = 0#64
        rw [hdata, BitVec.sub_self]
  · have hwithin : ret ≤ s.diff.toNat := by
      refine hclear.resolve_right fun hwhole => hcount (BitVec.eq_of_toNat_eq ?_)
      rw [hofInt]
      omega
    rw [if_pos hcount]
    refine ⟨ret.toNat, 0, by omega, by omega, by decide, ?_, ?_, fun _ => rfl⟩
    · have hsub : BitVec.ofInt 64 ret ≤ s.diff := by
        rw [BitVec.le_def, hofInt]
        omega
      show (s.diff - BitVec.ofInt 64 ret).toNat + _ = _
      rw [BitVec.toNat_sub_of_le hsub, hofInt]
      omega
    · show s.bufoffset + ret = _
      omega

/-- A write that takes more than the data, but not the whole chunk, is subtracted from the
data. -/
theorem writeAnswered_overran (hret : 0 < ret) (hle : ret ≤ req.count.toNat)
    (hdata : (s.diff.toNat : ℤ) < ret) (hpart : ret ≠ req.count.toNat) :
    (writeAnswered req s ret).2.bufoffset = s.bufoffset + ret ∧
      (writeAnswered req s ret).2.diff.toNat + ret.toNat = s.diff.toNat + 2 ^ 64 := by
  have hofInt := toNat_ofInt_of_le hret hle
  have hcount : BitVec.ofInt 64 ret ≠ req.count := by
    intro heq
    rw [heq] at hofInt
    omega
  have heof : ret ≠ eof := by
    unfold eof
    omega
  unfold writeAnswered
  rw [if_neg heof, if_neg (by omega), if_neg (by omega), if_pos hcount]
  refine ⟨rfl, ?_⟩
  show (s.diff - BitVec.ofInt 64 ret).toNat + _ = _
  rw [BitVec.toNat_sub, hofInt]
  have hlt := s.diff.isLt
  have hlt' := req.count.isLt
  omega

/-! ## The run -/

theorem stretch_append (start : ℤ) (m n : ℕ) :
    stretch start m ++ stretch (start + m) n = stretch start (m + n) := by
  unfold stretch
  rw [List.range_add, List.map_append, List.map_map]
  congr 1
  apply List.map_congr_left
  intro i _
  show start + m + (i : ℤ) = start + ((m + i : ℕ) : ℤ)
  rw [Nat.cast_add, add_assoc]

/-- What holds before every turn. -/
structure Progress (s : Sbuf) (w : Writing) : Prop where
  onward : s.bufoffset ≤ w.sbuf.bufoffset
  balance : w.sbuf.bufoffset - s.bufoffset + w.sbuf.diff.toNat = s.diff.toNat
  within : w.sbuf.diff ≠ 0 →
    w.log.flatMap Written.bytes = stretch s.bufoffset (s.diff.toNat - w.sbuf.diff.toNat) ∧
      ∀ v ∈ w.log, v.start + v.ret ≤ s.bufoffset + s.diff.toNat
  covers : w.sbuf.diff = 0 → Covers s.bufoffset s.diff.toNat w.log

theorem progress_entered : Progress s (entered s) where
  onward := le_rfl
  balance := by
    show s.bufoffset - s.bufoffset + (s.diff.toNat : ℤ) = _
    rw [sub_self, zero_add]
  within _ := by
    refine ⟨?_, fun v hv => by cases hv⟩
    show [] = stretch s.bufoffset (s.diff.toNat - s.diff.toNat)
    rw [Nat.sub_self]
    rfl
  covers hdone := by
    refine ⟨0, by decide, ?_, fun v hv => by cases hv⟩
    show [] = stretch s.bufoffset (s.diff.toNat + 0)
    rw [show s.diff = 0 from hdone]
    rfl

/-- One turn. -/
theorem Progress.took (h : Progress s w) (hdiff : w.sbuf.diff ≠ 0)
    (hreq : simpleWriteBytes o w.sbuf = some req) (hret : 0 < ret) (hle : ret ≤ req.count.toNat)
    (hclear : ret ≤ w.sbuf.diff.toNat ∨ ret = req.count.toNat) :
    Progress s ⟨(writeAnswered req w.sbuf ret).2, w.log ++ [⟨w.sbuf.bufoffset, req, ret⟩]⟩ ∧
      (writeAnswered req w.sbuf ret).2.diff.toNat < w.sbuf.diff.toNat := by
  obtain ⟨done, pad, hparts, hdone, hpad, hleft, hoffset, hopen⟩ :=
    writeAnswered_took hreq hdiff hret hle hclear
  obtain ⟨hbytes, hinside⟩ := h.within hdiff
  have hbalance := h.balance
  have honward := h.onward
  have hall : (w.log ++ [Written.mk w.sbuf.bufoffset req ret]).flatMap Written.bytes =
      stretch s.bufoffset (s.diff.toNat - w.sbuf.diff.toNat + (done + pad)) := by
    have hstart : w.sbuf.bufoffset = s.bufoffset + (s.diff.toNat - w.sbuf.diff.toNat : ℕ) := by
      omega
    have hlen : ret.toNat = done + pad := by omega
    rw [List.flatMap_append, hbytes, ← stretch_append, ← hstart, ← hlen]
    rw [List.flatMap_cons, List.flatMap_nil, List.append_nil]
    rfl
  refine ⟨⟨?_, ?_, fun hmore => ?_, fun hend => ?_⟩, by omega⟩
  · show _ ≤ (writeAnswered req w.sbuf ret).2.bufoffset
    rw [hoffset]
    omega
  · show (writeAnswered req w.sbuf ret).2.bufoffset - s.bufoffset +
      ((writeAnswered req w.sbuf ret).2.diff.toNat : ℤ) = _
    rw [hoffset]
    omega
  · have hnopad : pad = 0 := hopen hmore
    refine ⟨?_, fun v hv => ?_⟩
    · rw [hall]
      congr 1
      show _ = s.diff.toNat - (writeAnswered req w.sbuf ret).2.diff.toNat
      omega
    · rcases List.mem_append.mp hv with hv | hv
      · exact hinside v hv
      · obtain rfl := List.mem_singleton.mp hv
        show w.sbuf.bufoffset + ret ≤ _
        omega
  · change (writeAnswered req w.sbuf ret).2.diff = 0 at hend
    have hzero : (writeAnswered req w.sbuf ret).2.diff.toNat = 0 := by
      rw [hend]
      rfl
    refine ⟨pad, hpad, ?_, fun v hv => ?_⟩
    · rw [hall]
      congr 1
      omega
    · rw [List.dropLast_concat] at hv
      exact hinside v hv

theorem progress_of_reaches (hlegal : Legal o rets s) (hclear : Clear o rets s)
    (h : Reaches (syncTurn o rets) (entered s) w) : Progress s w := by
  induction h with
  | refl => exact progress_entered
  | @tail w w' hreach hturn ih =>
      have hdiff : w.sbuf.diff ≠ 0 := by
        intro hdone
        cases (syncTurn_done hdone).symm.trans hturn
      obtain ⟨req, hreq, hfits⟩ := hclear w hreach hdiff
      obtain ⟨hret, hle⟩ := hlegal w hreach hdiff req hreq
      obtain rfl := Turn.again.inj ((syncTurn_took hdiff hreq hret).symm.trans hturn)
      exact (ih.took hdiff hreq hret hle hfits).1

/-- **The synchronous loop writes everything once** exactly when every chunk is clear. -/
theorem writesOnce_iff (hlegal : Legal o rets s) : WritesOnce o rets s ↔ Clear o rets s := by
  constructor
  · intro h w hreach hdiff
    obtain ⟨s', log, hends, -⟩ := h.ends
    cases hreq : simpleWriteBytes o w.sbuf with
    | none =>
        have haborts := hreach.ends_iff.mpr (Ends.stop (syncTurn_aborted hdiff hreq))
        cases (Prod.mk.inj (hends.unique haborts)).1
    | some req =>
        obtain ⟨hret, hle⟩ := hlegal w hreach hdiff req hreq
        refine ⟨req, rfl, ?_⟩
        by_contra hbad
        obtain ⟨hdata, hpart⟩ := not_or.mp hbad
        obtain ⟨hoffset, hleft⟩ :=
          writeAnswered_overran (s := w.sbuf) hret hle (not_le.mp hdata) hpart
        have hbefore := h.balance w hreach
        have hafter := h.balance _ (hreach.next (syncTurn_took hdiff hreq hret))
        change (writeAnswered req w.sbuf _).2.bufoffset - s.bufoffset +
          ((writeAnswered req w.sbuf _).2.diff.toNat : ℤ) = _ at hafter
        rw [hoffset] at hafter
        omega
  · intro hclear
    refine ⟨fun w hreach => (progress_of_reaches hlegal hclear hreach).balance, ?_⟩
    have hrun : ∃ r, Ends (syncTurn o rets) (entered s) r ∧ ∃ s', r.1 = .returned 0 s' ∧
        s'.diff = 0 ∧ Covers s.bufoffset s.diff.toNat r.2 := by
      refine Ends.of_variant (Reaches (syncTurn o rets) (entered s)) _
        (fun w => w.sbuf.diff.toNat) (fun w hreach => ?_) Reaches.refl
      have hprogress := progress_of_reaches hlegal hclear hreach
      by_cases hdiff : w.sbuf.diff = 0
      · exact Or.inr ⟨_, syncTurn_done hdiff, w.sbuf, rfl, hdiff, hprogress.covers hdiff⟩
      · obtain ⟨req, hreq, hfits⟩ := hclear w hreach hdiff
        obtain ⟨hret, hle⟩ := hlegal w hreach hdiff req hreq
        have hturn := syncTurn_took hdiff hreq hret
        exact Or.inl ⟨_, hturn, hreach.next hturn,
          (hprogress.took hdiff hreq hret hle hfits).2⟩
    obtain ⟨⟨out, log⟩, hends, s', rfl, hdone, hcovers⟩ := hrun
    exact ⟨s', log, hends, hdone, hcovers⟩

/-! ## Two recordings -/

/-- The default back end, with chunks of two blocks. -/
def defOpt : Opt where
  writend := .recDef
  asyncWrite := false
  writeToSingleFile := false
  statusRunning := true
  haveAssert := true
  packetSize := 100
  bufNumElems := 100
  doWStuffEvery := 8192

/-- A buffer of `n` bytes that is handed to the loop. -/
def filled (n : ℕ) : Sbuf where
  diff := BitVec.ofNat 64 n
  asyncdiff := 0
  bufoffset := 0
  recer := true
  running := true

/-- The first write of 10000 bytes, in chunks of two blocks, is taken as a whole; so is the tail,
which is one block. -/
def wholeRets : ℕ → ℤ
  | 0 => 8192
  | _ + 1 => 4096

def wholeFirst : Writing :=
  ⟨{ filled 1808 with bufoffset := 8192 }, [⟨0, ⟨8192, 8192⟩, 8192⟩]⟩

def wholeSecond : Writing :=
  ⟨{ filled 0 with bufoffset := 10000 },
    [⟨0, ⟨8192, 8192⟩, 8192⟩, ⟨8192, ⟨4096, 1808⟩, 4096⟩]⟩

theorem reaches_whole (h : Reaches (syncTurn defOpt wholeRets) (entered (filled 10000)) w) :
    w = entered (filled 10000) ∨ w = wholeFirst ∨ w = wholeSecond := by
  have hfirst : syncTurn defOpt wholeRets (entered (filled 10000)) = .again wholeFirst := rfl
  have hsecond : syncTurn defOpt wholeRets wholeFirst = .again wholeSecond := rfl
  refine ((Reaches.again_iff hfirst).mp h).imp_right fun h => ?_
  refine ((Reaches.again_iff hsecond).mp h).imp_right fun h => ?_
  exact (Reaches.stop_iff (syncTurn_done rfl)).mp h

theorem writesOnce_iff_whole : WritesOnce defOpt wholeRets (filled 10000) := by
  refine (writesOnce_iff fun w hreach hdiff req hreq => ?_).mpr fun w hreach hdiff => ?_
  · rcases reaches_whole hreach with rfl | rfl | rfl
    · obtain rfl := Option.some.inj hreq
      decide
    · obtain rfl := Option.some.inj hreq
      decide
    · exact absurd rfl hdiff
  · rcases reaches_whole hreach with rfl | rfl | rfl
    · exact ⟨_, rfl, Or.inl (by decide)⟩
    · exact ⟨_, rfl, Or.inr rfl⟩
    · exact absurd rfl hdiff

/-- 200 bytes of the first chunk are taken, and one byte of every other. -/
def partRets : ℕ → ℤ
  | 0 => 200
  | _ + 1 => 1

/-- With nothing written the loop is where it was entered. -/
theorem sbuf_of_reaches (h : Reaches (syncTurn o rets) (entered s) w) (hlog : w.log = []) :
    w.sbuf = s := by
  induction h with
  | refl => rfl
  | @tail w w' _ hturn _ =>
      by_cases hdiff : w.sbuf.diff = 0
      · cases (syncTurn_done hdiff).symm.trans hturn
      cases hreq : simpleWriteBytes o w.sbuf with
      | none => cases (syncTurn_aborted hdiff hreq).symm.trans hturn
      | some req =>
          rw [syncTurn_wrote rets hdiff hreq] at hturn
          split at hturn
          · obtain rfl := Turn.again.inj hturn
            exact absurd hlog (List.append_ne_nil_of_right_ne_nil _ (List.cons_ne_nil _ _))
          · cases hturn

theorem defOpt_count (hdiff : s.diff ≠ 0) (h : simpleWriteBytes defOpt s = some req) :
    0 < req.count.toNat := by
  have hpos : 0 < s.diff.toNat := BitVec.toNat_pos_of_ne_zero hdiff
  have hlimit : writeLimit defOpt = 8192#64 := rfl
  simp only [simpleWriteBytes, hlimit] at h
  split at h
  next hmore =>
    obtain rfl := Option.some.inj ((if_neg fun hne => hne.1 rfl).symm.trans h)
    decide
  next hmore =>
    have hle : s.diff.toNat ≤ 8192 := by
      rw [BitVec.lt_def] at hmore
      exact Nat.le_of_not_lt hmore
    split at h
    · obtain rfl := Option.some.inj h
      show 0 < (s.diff + BitVec.ofNat 64
        (if s.diff.toNat % 4096 = 0 then 0 else 4096 - s.diff.toNat % 4096)).toNat
      rw [BitVec.toNat_add, BitVec.toNat_ofNat]
      split <;> omega
    · obtain rfl := Option.some.inj h
      exact hpos

/-- **A tail taken in part.**  Of the block for the last 100 bytes the back end takes 200: `diff`
wraps. -/
theorem part_of_tail_wraps : ¬ ∀ (o : Opt) (rets : ℕ → ℤ) (s : Sbuf),
    0 < o.doWStuffEvery → Legal o rets s → WritesOnce o rets s := by
  intro h
  have hlegal : Legal defOpt partRets (filled 100) := by
    intro w hreach hdiff req hreq
    cases hlog : w.log with
    | nil =>
        rw [sbuf_of_reaches hreach hlog] at hreq
        obtain rfl := Option.some.inj hreq
        decide
    | cons v rest =>
        have hcount := defOpt_count hdiff hreq
        rw [List.length_cons, partRets]
        omega
  have hturn : syncTurn defOpt partRets (entered (filled 100)) =
      .again ⟨⟨BitVec.ofInt 64 (-100), 0, 200, true, true⟩, [⟨0, ⟨4096, 100⟩, 200⟩]⟩ := rfl
  have hbalance := (h defOpt partRets (filled 100) (by decide) hlegal).balance _
    (Reaches.refl.next hturn)
  revert hbalance
  decide

end Results

end Writing

end VlbiStreamer.Recorder
