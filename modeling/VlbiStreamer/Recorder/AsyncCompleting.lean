import Mathlib.Algebra.BigOperators.Group.List.Basic
import VlbiStreamer.Recorder.AsyncWriting
import VlbiStreamer.Recorder.SyncWriting

/-!
# When the asynchronous loop completes

Every request is written in full, at any time and in any order, and the queue takes at most
`MAX_EVENTS` of them.

`completes_iff` says for which buffers the loop ends when its writes are complete: the chunks
must fit the `int` of `sbuf_check`, and the tail must fill whole blocks, since a completed
tail is subtracted from `asyncdiff` with its padding.
-/

namespace VlbiStreamer.Recorder

open Library

/-- The bytes of the buffer among those a request writes. -/
def Submitted.payload (r : Submitted) : ℕ := min r.req.origcount.toNat r.req.count.toNat

namespace AsyncWriting

variable (o : Opt) (polls : Polls)

/-- Every request in the queue is reported at some time, unless the loop ends before. -/
def Fair (s : Sbuf) : Prop :=
  ∀ w, Reaches (asyncTurn o polls) (entered s) w → ∀ r ∈ w.queue,
    (∃ out, Ends (asyncTurn o polls) w out) ∨
      ∃ w', Reaches (asyncTurn o polls) w w' ∧ r ∉ w'.queue

/-- Payload bytes that were completed. -/
def completed (w : AsyncWriting) : ℕ := (w.done.map Submitted.payload).sum

/-- Payload bytes in the queue. -/
def outstanding (w : AsyncWriting) : ℕ := (w.queue.map Submitted.payload).sum

/-- The loop ends when its writes are complete, whatever the order of the completions:
`asyncdiff` is what is left to complete, it is not zero while a request is outstanding, and
the loop returns with nothing left to write and nothing in the queue. -/
def Completes (s : Sbuf) : Prop :=
  ∀ polls : Polls, Fair o polls s →
    (∀ w, Reaches (asyncTurn o polls) (entered s) w →
      w.sbuf.asyncdiff.toNat + w.completed = s.diff.toNat ∧
        (w.sbuf.asyncdiff = 0 → w.queue = [])) ∧
    ∃ w, Ends (asyncTurn o polls) (entered s) (.returned 0 w.sbuf, w) ∧
      w.sbuf.asyncdiff = 0 ∧ w.sbuf.diff = 0 ∧ w.queue = []

/-- The requests for `size` bytes with this limit fit an `int`, and the tail is a number of
whole blocks; or the buffer is a single request whose length is `AIO_END_OF_FILE` as an
`int`. -/
def Fits (limit size : ℕ) : Prop :=
  0 < limit ∧ min limit size < 2 ^ 31 ∧ size % limit % blockAlign = 0 ∨
    size = limit ∧ size < 2 ^ 63 ∧ size % 2 ^ 32 = 2 ^ 32 - 323

section Results

variable {o : Opt} {polls : Polls} {w w' w₀ : AsyncWriting} {req : Request} {r : Submitted}
  {s s' : Sbuf} {size : ℕ} {errno : ℤ}

/-! ## A request that fits -/

/-- A request whose completion takes its payload off `asyncdiff`. -/
structure Told (size : ℕ) (req : Request) : Prop where
  whole : req.count = req.origcount
  pos : 0 < req.count.toNat
  long : req.count.toNat < 2 ^ 63
  told : req.count.toNat < 2 ^ 31 ∨
    req.count.toNat = size ∧ req.count.toNat % 2 ^ 32 = 2 ^ 32 - 323

theorem Told.payload (h : Told size r.req) : r.payload = r.req.count.toNat := by
  unfold Submitted.payload
  rw [← h.whole, Nat.min_self]

/-- The chunks of a buffer that fits. -/
theorem told_chunk (hdirect : o.writend.usesDirectio = true)
    (hfits : Fits (writeLimit o).toNat size) (hle : s.diff.toNat ≤ size)
    (hrest : s.diff.toNat % (writeLimit o).toNat = size % (writeLimit o).toNat)
    (hdiff : s.diff ≠ 0) :
    ∃ req, simpleWriteBytes o s = some req ∧ Told size req ∧
      req.count.toNat ≤ s.diff.toNat ∧
      (s.diff.toNat - req.count.toNat = 0 ∨
        (s.diff.toNat - req.count.toNat) % (writeLimit o).toNat =
          size % (writeLimit o).toNat) := by
  have hpos : 0 < s.diff.toNat := BitVec.toNat_pos_of_ne_zero hdiff
  have hlimit : 0 < (writeLimit o).toNat := by
    rcases hfits with ⟨hlimit, -⟩ | ⟨hsize, -⟩ <;> omega
  by_cases hfull : writeLimit o ≤ s.diff
  · have hfull' : (writeLimit o).toNat ≤ s.diff.toNat := BitVec.le_def.mp hfull
    refine ⟨_, simpleWriteBytes_limit hfull, ⟨rfl, hlimit, ?_, ?_⟩, hfull', Or.inr ?_⟩
    · show (writeLimit o).toNat < _
      rcases hfits with ⟨-, hint, -⟩ | ⟨hsize, hlong, -⟩ <;> omega
    · show (writeLimit o).toNat < _ ∨ _
      rcases hfits with ⟨-, hint, -⟩ | ⟨hsize, -, hmod⟩
      · exact Or.inl (by omega)
      · exact Or.inr ⟨hsize.symm, hsize ▸ hmod⟩
    · rw [← hrest]
      exact (Nat.mod_eq_sub_mod hfull').symm
  · have hless : s.diff < writeLimit o := BitVec.not_le.mp hfull
    have hless' : s.diff.toNat < (writeLimit o).toNat := BitVec.lt_def.mp hless
    rw [Nat.mod_eq_of_lt hless'] at hrest
    rcases hfits with ⟨-, hint, halign⟩ | ⟨hsize, -⟩
    · rw [← hrest] at halign
      refine ⟨_, (simpleWriteBytes_tail hdirect hless).trans
        (simpleEndTransaction_aligned halign), ⟨rfl, hpos, ?_, Or.inl ?_⟩, le_rfl,
        Or.inl (Nat.sub_self _)⟩
      · show s.diff.toNat < _
        omega
      · show s.diff.toNat < _
        omega
    · rw [hsize, Nat.mod_self] at hrest
      omega

theorem toInt_of_long (hlong : req.count.toNat < 2 ^ 63) :
    req.count.toInt = req.count.toNat :=
  BitVec.toInt_eq_toNat_of_lt (by omega)

/-- A chunk that is taken as a whole. -/
theorem writeAnswered_whole (hpos : 0 < req.count.toNat) (hlong : req.count.toNat < 2 ^ 63) :
    writeAnswered req s req.count.toInt = (0, { s with
      diff := s.diff - req.origcount
      bufoffset := s.bufoffset + req.origcount.toNat }) := by
  have hint := toInt_of_long hlong
  have heof : req.count.toInt ≠ eof := by
    unfold eof
    omega
  have hcount : BitVec.ofInt 64 req.count.toInt = req.count := BitVec.ofInt_toInt
  unfold writeAnswered
  rw [if_neg heof, if_neg (by omega), if_neg (by omega), hcount, if_neg (not_not.mpr rfl)]

/-- `sbuf_check` keeps the length of a completed request in an `int`. -/
theorem checkRet_natCast (n : ℕ) :
    checkRet n = if n % 2 ^ 32 < 2 ^ 31 then ((n % 2 ^ 32 : ℕ) : ℤ)
      else ((n % 2 ^ 32 : ℕ) : ℤ) - 2 ^ 32 := by
  unfold checkRet
  rw [BitVec.ofInt_natCast, BitVec.toInt_eq_toNat_cond, BitVec.toNat_ofNat]
  split <;> split <;> omega

theorem sbufCheck_short {n : ℕ} (h : n % 2 ^ 32 < 2 ^ 31) :
    sbufCheck s n =
      (0, { s with asyncdiff := s.asyncdiff - BitVec.ofNat 64 (n % 2 ^ 32) }) := by
  have hret := checkRet_natCast n
  rw [if_pos h] at hret
  unfold sbufCheck
  rw [hret]
  by_cases hzero : n % 2 ^ 32 = 0
  · rw [hzero, BitVec.sub_zero]
    rfl
  · rw [if_pos (by omega), BitVec.ofInt_natCast]

/-- The length of the request passes for `AIO_END_OF_FILE`. -/
theorem sbufCheck_eof {n : ℕ} (h : n % 2 ^ 32 = 2 ^ 32 - 323) :
    sbufCheck s n = (0, { s with asyncdiff := 0 }) := by
  have hret := checkRet_natCast n
  rw [h, if_neg (by decide)] at hret
  unfold sbufCheck
  rw [hret]
  rfl

/-- The length of the request passes for an error. -/
theorem sbufCheck_failed {n : ℕ} (h : ¬ n % 2 ^ 32 < 2 ^ 31) (heof : n % 2 ^ 32 ≠ 2 ^ 32 - 323) :
    sbufCheck s n = (-1, s) := by
  have hret := checkRet_natCast n
  rw [if_neg h] at hret
  have hlt : n % 2 ^ 32 < 2 ^ 32 := Nat.mod_lt _ (by decide)
  unfold sbufCheck aioEndOfFile
  rw [if_neg (by omega), if_neg (by omega), if_neg (by omega)]

theorem aiowCheck_whole (hpos : 0 < req.count.toNat) (hlong : req.count.toNat < 2 ^ 63) :
    aiowCheck 1 req.count.toInt errno = (req.count.toNat : ℤ) := by
  have hint := toInt_of_long hlong
  unfold aiowCheck
  rw [if_pos (by decide), if_pos (by omega), hint]

/-- The completion of a request that is told. -/
theorem sbufCheck_told (h : Told size req) (hle : req.count.toNat ≤ s.asyncdiff.toNat)
    (hsize : s.asyncdiff.toNat ≤ size) :
    ∃ s', sbufCheck s (aiowCheck 1 req.count.toInt errno) = (0, s') ∧
      s'.asyncdiff.toNat + req.count.toNat = s.asyncdiff.toNat ∧
      s'.diff = s.diff ∧ s'.recer = s.recer := by
  rw [aiowCheck_whole h.pos h.long]
  rcases h.told with hint | ⟨hwhole, hmod⟩
  · have hmod : req.count.toNat % 2 ^ 32 = req.count.toNat := Nat.mod_eq_of_lt (by omega)
    refine ⟨_, sbufCheck_short (by omega), ?_, rfl, rfl⟩
    show (s.asyncdiff - BitVec.ofNat 64 (req.count.toNat % 2 ^ 32)).toNat + _ = _
    rw [hmod, BitVec.ofNat_toNat, BitVec.setWidth_eq,
      BitVec.toNat_sub_of_le (BitVec.le_def.mpr hle)]
    omega
  · refine ⟨_, sbufCheck_eof hmod, ?_, rfl, rfl⟩
    show 0 + _ = _
    omega

/-! ## A turn that fits -/

/-- What holds before every turn. -/
structure Counted (limit size : ℕ) (w : AsyncWriting) : Prop where
  recer : w.sbuf.recer = true
  pending : w.sbuf.asyncdiff.toNat = w.sbuf.diff.toNat + w.outstanding
  balance : w.sbuf.asyncdiff.toNat + w.completed = size
  told : ∀ r ∈ w.queue, Told size r.req
  rest : w.sbuf.diff.toNat = 0 ∨ w.sbuf.diff.toNat % limit = size % limit

/-- What is left to write and to complete. -/
def left (w : AsyncWriting) : ℕ := w.sbuf.diff.toNat + w.sbuf.asyncdiff.toNat

/-- No request leaves the queue without leaving less to do. -/
structure Advances (w w' : AsyncWriting) : Prop where
  le : w'.left ≤ w.left
  keeps : (∀ r ∈ w.queue, r ∈ w'.queue) ∨ w'.left < w.left

theorem Advances.trans {w'' : AsyncWriting} (h : Advances w w') (h' : Advances w' w'') :
    Advances w w'' where
  le := h'.le.trans h.le
  keeps := by
    rcases h.keeps with hkeeps | hlt
    · rcases h'.keeps with hkeeps' | hlt'
      · exact Or.inl fun r hr => hkeeps' r (hkeeps r hr)
      · exact Or.inr (hlt'.trans_le h.le)
    · exact Or.inr (h'.le.trans_lt hlt)

/-- **A check** takes a completed request off the queue and off `asyncdiff`. -/
theorem checkTurn_counted (polls : Polls) {limit : ℕ} (h : Counted limit size w) :
    ∃ w', checkTurn polls w = .again w' ∧ Counted limit size w' ∧ Advances w w' := by
  cases hrep : reported polls w with
  | none =>
      exact ⟨_, checkTurn_none hrep, ⟨h.recer, h.pending, h.balance, h.told, h.rest⟩,
        le_rfl, Or.inl fun r hr => hr⟩
  | some found =>
      obtain ⟨i, r⟩ := found
      have hperm := reported_perm hrep
      have htold : Told size r.req := h.told r (hperm.symm.subset List.mem_cons_self)
      have hpos := htold.pos
      have hout : w.outstanding = r.req.count.toNat +
          ((w.queue.eraseIdx i).map Submitted.payload).sum := by
        unfold outstanding
        rw [(hperm.map Submitted.payload).sum_eq, List.map_cons, List.sum_cons, htold.payload]
      have hpending := h.pending
      have hbalance := h.balance
      obtain ⟨s', hok, hless, hdiff, hrecer⟩ := sbufCheck_told htold (s := w.sbuf)
        (show _ ≤ w.sbuf.asyncdiff.toNat by omega) (by omega)
      refine ⟨_, checkTurn_some hrep hok, ⟨hrecer.trans h.recer, ?_, ?_, fun r' hr' => ?_, ?_⟩,
        ?_, Or.inr ?_⟩
      · show s'.asyncdiff.toNat = s'.diff.toNat +
          ((w.queue.eraseIdx i).map Submitted.payload).sum
        rw [hdiff]
        omega
      · show s'.asyncdiff.toNat + ((w.done ++ [r]).map Submitted.payload).sum = size
        have hdone : ((w.done ++ [r]).map Submitted.payload).sum =
            w.completed + r.req.count.toNat := by
          rw [List.map_append, List.sum_append, List.map_singleton, List.sum_singleton,
            htold.payload]
          rfl
        rw [hdone]
        omega
      · exact h.told r' (List.mem_of_mem_eraseIdx hr')
      · show s'.diff.toNat = 0 ∨ s'.diff.toNat % limit = size % limit
        rw [hdiff]
        exact h.rest
      · show s'.diff.toNat + s'.asyncdiff.toNat ≤ w.sbuf.diff.toNat + w.sbuf.asyncdiff.toNat
        rw [hdiff]
        omega
      · show s'.diff.toNat + s'.asyncdiff.toNat < w.sbuf.diff.toNat + w.sbuf.asyncdiff.toNat
        rw [hdiff]
        omega

/-- **A submission** takes a chunk off `diff` and puts it into the queue. -/
theorem Counted.submitted {limit : ℕ} {calls : List Call} (h : Counted limit size w)
    (htold : Told size req) (hle : req.count.toNat ≤ w.sbuf.diff.toNat)
    (hrest : w.sbuf.diff.toNat - req.count.toNat = 0 ∨
      (w.sbuf.diff.toNat - req.count.toNat) % limit = size % limit) :
    let w' : AsyncWriting :=
      { sbuf := { w.sbuf with
          diff := w.sbuf.diff - req.origcount
          bufoffset := w.sbuf.bufoffset + req.origcount.toNat }
        queue := w.queue ++ [⟨w.submissions, req⟩]
        done := w.done
        submissions := w.submissions + 1
        checks := w.checks
        calls := calls }
    Counted limit size w' ∧ Advances w w' ∧ w'.left < w.left := by
  intro w'
  have hpos := htold.pos
  have hpending := h.pending
  have hdiff : w'.sbuf.diff.toNat = w.sbuf.diff.toNat - req.count.toNat := by
    show (w.sbuf.diff - req.origcount).toNat = _
    rw [← htold.whole, BitVec.toNat_sub_of_le hle]
  have hout : w'.outstanding = w.outstanding + req.count.toNat := by
    have hpayload := Told.payload (r := ⟨w.submissions, req⟩) htold
    show ((w.queue ++ [_]).map Submitted.payload).sum = _
    rw [List.map_append, List.sum_append, List.map_singleton, List.sum_singleton, hpayload]
    rfl
  have hleft : w'.left < w.left := by
    show w'.sbuf.diff.toNat + w.sbuf.asyncdiff.toNat < w.sbuf.diff.toNat + w.sbuf.asyncdiff.toNat
    omega
  refine ⟨⟨h.recer, ?_, h.balance, fun r hr => ?_, ?_⟩, ⟨hleft.le, Or.inl fun r hr => ?_⟩, hleft⟩
  · show w.sbuf.asyncdiff.toNat = _
    omega
  · rcases List.mem_append.mp hr with hr | hr
    · exact h.told r hr
    · obtain rfl := List.mem_singleton.mp hr
      exact htold
  · rw [hdiff]
    exact hrest
  · exact List.mem_append_left _ hr

/-- **A turn.**  With an empty queue it leaves less to do. -/
theorem asyncTurn_counted (polls : Polls) (hdirect : o.writend.usesDirectio = true)
    (hfits : Fits (writeLimit o).toNat size)
    (h : Counted (writeLimit o).toNat size w) (hleft : w.sbuf.asyncdiff ≠ 0) :
    ∃ w', asyncTurn o polls w = .again w' ∧ Counted (writeLimit o).toNat size w' ∧
      Advances w w' ∧ (w.queue = [] → w'.left < w.left) := by
  have hpending := h.pending
  have hbalance := h.balance
  by_cases hdiff : w.sbuf.diff = 0
  · obtain ⟨w', hturn, hcounted, hadvances⟩ := checkTurn_counted polls h
    refine ⟨w', ?_, hcounted, hadvances, fun hempty => ?_⟩
    · rw [asyncTurn_checked hleft hdiff h.recer, hturn]
    · refine absurd (BitVec.eq_of_toNat_eq ?_) hleft
      rw [hpending, hdiff, outstanding, hempty]
      rfl
  · have hrest := h.rest.resolve_left fun hzero => hdiff (BitVec.eq_of_toNat_eq hzero)
    obtain ⟨req, hreq, htold, hle, hrest'⟩ :=
      told_chunk hdirect hfits (by omega) hrest hdiff
    have hpos := htold.pos
    rw [asyncTurn_wrote polls hleft hdiff hreq]
    by_cases hroom : w.queue.length < maxEvents
    · obtain ⟨hcounted, hadvances, hless⟩ := h.submitted htold hle hrest'
      rw [submit_taken hroom]
      show ∃ w', (if (writeAnswered req w.sbuf req.count.toInt).1 = 0 then _ else _) = _ ∧ _
      rw [writeAnswered_whole htold.pos htold.long, if_pos rfl]
      obtain ⟨w', hturn, hcounted', hadvances'⟩ := checkTurn_counted polls hcounted
      exact ⟨w', hturn, hcounted', hadvances.trans hadvances',
        fun _ => hadvances'.le.trans_lt hless⟩
    · -- a full queue answers zero, and is not empty
      have hcounted : Counted (writeLimit o).toNat size
          { w with calls := w.calls ++ [.write 0] } :=
        ⟨h.recer, h.pending, h.balance, h.told, h.rest⟩
      rw [submit_full (Nat.not_lt.mp hroom)]
      obtain ⟨w', hturn, hcounted', hadvances'⟩ := checkTurn_counted polls hcounted
      refine ⟨w', hturn, hcounted', ⟨hadvances'.le, hadvances'.keeps⟩, fun hempty => ?_⟩
      rw [hempty] at hroom
      exact absurd (by decide) hroom

/-! ## A run that fits -/

theorem counted_entered (hrecer : s.recer = true) :
    Counted (writeLimit o).toNat s.diff.toNat (entered s) where
  recer := hrecer
  pending := rfl
  balance := rfl
  told r hr := by cases hr
  rest := Or.inr rfl

theorem counted_of_reaches (hdirect : o.writend.usesDirectio = true)
    (hfits : Fits (writeLimit o).toNat size) (hreach : Reaches (asyncTurn o polls) w w')
    (h : Counted (writeLimit o).toNat size w) :
    Counted (writeLimit o).toNat size w' ∧ Advances w w' := by
  induction hreach with
  | refl => exact ⟨h, le_rfl, Or.inl fun r hr => hr⟩
  | @tail w₁ w₂ _ hturn ih =>
      obtain ⟨hcounted, hadvances⟩ := ih
      have hleft : w₁.sbuf.asyncdiff ≠ 0 := by
        intro hdone
        cases (asyncTurn_done hdone).symm.trans hturn
      obtain ⟨w₂', hturn', hcounted', hadvances', -⟩ :=
        asyncTurn_counted polls hdirect hfits hcounted hleft
      obtain rfl : w₂' = w₂ := Turn.again.inj (hturn'.symm.trans hturn)
      exact ⟨hcounted', hadvances.trans hadvances'⟩

theorem Counted.queue_nil {limit : ℕ} (h : Counted limit size w) (hdone : w.sbuf.asyncdiff = 0) :
    w.sbuf.diff = 0 ∧ w.queue = [] := by
  have hpending := h.pending
  rw [hdone] at hpending
  change 0 = _ at hpending
  refine ⟨BitVec.eq_of_toNat_eq (show _ = 0 by omega), ?_⟩
  cases hqueue : w.queue with
  | nil => rfl
  | cons r rest =>
      have htold : Told size r.req := h.told r (hqueue ▸ List.mem_cons_self)
      have hpos := htold.pos
      rw [outstanding, hqueue, List.map_cons, List.sum_cons, htold.payload] at hpending
      omega

/-- A turn goes on counted, or the loop stops with everything reported. -/
theorem upholds_counted (hdirect : o.writend.usesDirectio = true)
    (hfits : Fits (writeLimit o).toNat size) :
    Upholds (asyncTurn o polls) (Counted (writeLimit o).toNat size) fun out =>
      ∃ w, out = (.returned 0 w.sbuf, w) ∧
        w.sbuf.asyncdiff = 0 ∧ w.sbuf.diff = 0 ∧ w.queue = [] := by
  intro w h
  by_cases hdone : w.sbuf.asyncdiff = 0
  · exact Or.inl ⟨_, asyncTurn_done hdone, w, rfl, hdone, h.queue_nil hdone⟩
  · obtain ⟨w', hturn, hcounted, -⟩ := asyncTurn_counted polls hdirect hfits h hdone
    exact Or.inr ⟨w', hturn, hcounted⟩

/-- **Every fair run ends.**  By induction on what is left: a request in the queue is reported
some time, and with an empty queue the next turn submits one. -/
theorem ends_of_fair (hdirect : o.writend.usesDirectio = true)
    (hfits : Fits (writeLimit o).toNat size) (hfair : Fair o polls s)
    (hreach : Reaches (asyncTurn o polls) (entered s) w)
    (h : Counted (writeLimit o).toNat size w) : ∃ out, Ends (asyncTurn o polls) w out := by
  induction hn : w.left using Nat.strongRecOn generalizing w with
  | ind n ih =>
      by_cases hdone : w.sbuf.asyncdiff = 0
      · exact ⟨_, Ends.stop (asyncTurn_done hdone)⟩
      cases hqueue : w.queue with
      | nil =>
          obtain ⟨w', hturn, hcounted, -, hless⟩ :=
            asyncTurn_counted polls hdirect hfits h hdone
          obtain ⟨out, hends⟩ := ih w'.left (hn ▸ hless hqueue) (hreach.next hturn) hcounted rfl
          exact ⟨out, (Ends.again_iff hturn).mpr hends⟩
      | cons r rest =>
          have hmem : r ∈ w.queue := hqueue ▸ List.mem_cons_self
          rcases hfair w hreach r hmem with hends | ⟨w', hreach', hgone⟩
          · exact hends
          · obtain ⟨hcounted, hadvances⟩ := counted_of_reaches hdirect hfits hreach' h
            have hless := hadvances.keeps.resolve_left fun hkeeps => hgone (hkeeps r hmem)
            obtain ⟨out, hends⟩ :=
              ih w'.left (hn ▸ hless) (hreach.trans hreach') hcounted rfl
            exact ⟨out, hreach'.ends_iff.mpr hends⟩

theorem completes_of_fits (hdirect : o.writend.usesDirectio = true) (hrecer : s.recer = true)
    (hfits : Fits (writeLimit o).toNat s.diff.toNat) : Completes o s := by
  intro polls hfair
  have hcounted : ∀ w, Reaches (asyncTurn o polls) (entered s) w →
      Counted (writeLimit o).toNat s.diff.toNat w := fun w hreach =>
    (upholds_counted hdirect hfits).reaches hreach (counted_entered hrecer)
  refine ⟨fun w hreach => ⟨(hcounted w hreach).balance,
    fun hdone => ((hcounted w hreach).queue_nil hdone).2⟩, ?_⟩
  obtain ⟨out, hends⟩ :=
    ends_of_fair hdirect hfits hfair Reaches.refl (counted_entered hrecer)
  obtain ⟨w, rfl, hzero⟩ := (upholds_counted hdirect hfits).ends hends (counted_entered hrecer)
  exact ⟨w, hends, hzero⟩

/-! ## Completions that are reported at once -/

/-- Every check reports the oldest request. -/
def prompt : Polls := ⟨fun _ => some 0, fun _ => 0⟩

theorem checkTurn_prompt (h : checkTurn prompt w = .again w') (hqueue : w.queue.length ≤ 1) :
    w'.queue = [] := by
  rw [checkTurn_eq] at h
  split at h
  · obtain rfl := Turn.again.inj h
    show (poll prompt w).2.queue = []
    cases hw : w.queue with
    | nil =>
        have hnone : reported prompt w = none := by
          unfold reported prompt
          rw [hw]
          rfl
        rw [poll_none hnone]
        exact hw
    | cons r rest =>
        have hrest : rest = [] := by
          rw [hw, List.length_cons] at hqueue
          exact List.eq_nil_of_length_eq_zero (by omega)
        have hsome : reported prompt w = some (0, r) := by
          unfold reported prompt
          rw [hw]
          rfl
        rw [poll_some hsome, hw, hrest]
        rfl
  · cases h

theorem asyncTurn_prompt (h : asyncTurn o prompt w = .again w') (hqueue : w.queue = []) :
    w'.queue = [] := by
  by_cases hdone : w.sbuf.asyncdiff = 0
  · cases (asyncTurn_done hdone).symm.trans h
  by_cases hdiff : w.sbuf.diff = 0
  · by_cases hrecer : w.sbuf.recer = true
    · rw [asyncTurn_checked hdone hdiff hrecer] at h
      refine checkTurn_prompt h ?_
      rw [hqueue]
      exact Nat.zero_le _
    · cases (asyncTurn_lost hdone hdiff hrecer).symm.trans h
  cases hreq : simpleWriteBytes o w.sbuf with
  | none => cases (asyncTurn_aborted hdone hdiff hreq).symm.trans h
  | some req =>
      rw [asyncTurn_wrote prompt hdone hdiff hreq] at h
      split at h
      · refine checkTurn_prompt h ?_
        rw [submit_taken (by rw [hqueue]; decide), hqueue]
        exact le_rfl
      · cases h

theorem prompt_fair : Fair o prompt s := by
  intro w hreach r hr
  have hqueue : w.queue = [] :=
    hreach.invariant (fun w => w.queue = []) (fun w w' h hturn => asyncTurn_prompt hturn h) rfl
  rw [hqueue] at hr
  cases hr

/-- From `w` on `asyncdiff` and what has completed are the size of the buffer, and the run
ends with all of it written. -/
structure Sound (o : Opt) (size : ℕ) (w : AsyncWriting) : Prop where
  balance : ∀ w', Reaches (asyncTurn o prompt) w w' →
    w'.sbuf.asyncdiff.toNat + w'.completed = size
  ends : ∃ w', Ends (asyncTurn o prompt) w (.returned 0 w'.sbuf, w')

theorem Sound.next (h : Sound o size w) (hturn : asyncTurn o prompt w = .again w') :
    Sound o size w' where
  balance w'' hreach := h.balance w'' ((Reaches.again_iff hturn).mpr (Or.inr hreach))
  ends := by
    obtain ⟨w'', hends⟩ := h.ends
    exact ⟨w'', (Ends.again_iff hturn).mp hends⟩

theorem Sound.not_failed (h : Sound o size w) :
    asyncTurn o prompt w ≠ .stop (.returned (-1) s', w') := by
  intro hturn
  obtain ⟨w'', hends⟩ := h.ends
  cases (Ends.stop_iff hturn).mp hends

/-- The loop stands before a chunk with nothing in the queue. -/
structure Fresh (w : AsyncWriting) : Prop where
  diff : w.sbuf.diff ≠ 0
  same : w.sbuf.asyncdiff = w.sbuf.diff
  queue : w.queue = []

theorem Fresh.pos (h : Fresh w) : 0 < w.sbuf.diff.toNat := BitVec.toNat_pos_of_ne_zero h.diff

/-- A turn whose request is reported at once. -/
theorem prompt_turn (h : Fresh w) (hreq : simpleWriteBytes o w.sbuf = some req) (s' : Sbuf)
    (hans : writeAnswered req w.sbuf req.count.toInt = (0, s')) :
    asyncTurn o prompt w =
      let out := sbufCheck s' (aiowCheck 1 req.count.toInt 0)
      let w' : AsyncWriting :=
        { sbuf := out.2
          queue := []
          done := w.done ++ [⟨w.submissions, req⟩]
          submissions := w.submissions + 1
          checks := w.checks + 1
          calls := w.calls ++ [.write req.count.toInt] ++
            [.check (aiowCheck 1 req.count.toInt 0)] }
      if out.1 = 0 then .again w' else .stop (.returned (-1) out.2, w') := by
  have hleft : w.sbuf.asyncdiff ≠ 0 := fun hzero => h.diff (h.same.symm.trans hzero)
  rw [asyncTurn_wrote prompt hleft h.diff hreq, submit_taken (by rw [h.queue]; decide)]
  show (if (writeAnswered req w.sbuf req.count.toInt).1 = 0 then _ else _) = _
  rw [hans, if_pos rfl, h.queue, checkTurn_eq, poll_some (i := 0) (r := ⟨w.submissions, req⟩) rfl]
  rfl

theorem completed_append {n : ℕ} :
    ((w.done ++ [Submitted.mk n req]).map Submitted.payload).sum =
      w.completed + min req.origcount.toNat req.count.toNat := by
  rw [List.map_append, List.sum_append, List.map_singleton, List.sum_singleton]
  rfl

/-- A length that is negative as a `long` fails. -/
theorem Sound.long (hsound : Sound o size w) (h : Fresh w)
    (hreq : simpleWriteBytes o w.sbuf = some req) : req.count.toNat < 2 ^ 63 := by
  by_contra hlong
  have hneg : req.count.toInt < 0 := by
    rw [BitVec.toInt_eq_toNat_cond]
    have hlt := req.count.isLt
    split <;> omega
  by_cases heof : req.count.toInt = eof
  · have hturn := prompt_turn h hreq { w.sbuf with diff := 0 } (if_pos heof)
    rw [heof] at hturn
    exact hsound.not_failed hturn
  · have hleft : w.sbuf.asyncdiff ≠ 0 := fun hzero => h.diff (h.same.symm.trans hzero)
    have hans : writeAnswered req w.sbuf req.count.toInt =
        (-1, { w.sbuf with recer := false }) := by
      unfold writeAnswered
      rw [if_neg heof, if_pos hneg]
    have hturn := asyncTurn_wrote prompt hleft h.diff hreq
    rw [submit_taken (by rw [h.queue]; decide)] at hturn
    change _ = if (writeAnswered req w.sbuf req.count.toInt).1 = 0 then _ else _ at hturn
    rw [hans, if_neg (show ¬ (-1 : ℤ) = 0 by decide)] at hturn
    exact hsound.not_failed hturn

/-- A request of no bytes is taken for the end of the file. -/
theorem Sound.pos (hsound : Sound o size w) (h : Fresh w)
    (hreq : simpleWriteBytes o w.sbuf = some req) : 0 < req.count.toNat := by
  by_contra hzero
  have hcount : req.count = 0 := BitVec.eq_of_toNat_eq (show _ = 0 by omega)
  have hint : req.count.toInt = 0 := by
    rw [hcount]
    rfl
  have hturn := prompt_turn h hreq w.sbuf (by rw [hint]; rfl)
  rw [hint] at hturn
  have hnext := hsound.balance _ (Reaches.refl.next hturn)
  have hnow := hsound.balance w Reaches.refl
  change 0 + ((w.done ++ [_]).map Submitted.payload).sum = size at hnext
  rw [completed_append] at hnext
  have hleft := h.pos
  rw [h.same] at hnow
  omega

/-- What a request that is completed at once tells about its length. -/
theorem Sound.told (hsound : Sound o size w) (h : Fresh w)
    (hreq : simpleWriteBytes o w.sbuf = some req) :
    (req.count.toNat % 2 ^ 32 = min req.origcount.toNat req.count.toNat ∧
        req.count.toNat % 2 ^ 32 < 2 ^ 31 ∧
        ∃ w', asyncTurn o prompt w = .again w' ∧ w'.queue = [] ∧
          w'.sbuf.diff = w.sbuf.diff - req.origcount ∧
          w'.sbuf.asyncdiff = w.sbuf.asyncdiff -
            BitVec.ofNat 64 (min req.origcount.toNat req.count.toNat)) ∨
      req.count.toNat % 2 ^ 32 = 2 ^ 32 - 323 ∧
        min req.origcount.toNat req.count.toNat = w.sbuf.diff.toNat := by
  have hlong := hsound.long h hreq
  have hpos := hsound.pos h hreq
  have hturn := prompt_turn h hreq _ (writeAnswered_whole hpos hlong)
  rw [aiowCheck_whole hpos hlong] at hturn
  have hnow := hsound.balance w Reaches.refl
  rw [h.same] at hnow
  by_cases hshort : req.count.toNat % 2 ^ 32 < 2 ^ 31
  · rw [sbufCheck_short hshort] at hturn
    have hnext := hsound.balance _ (Reaches.refl.next hturn)
    change (w.sbuf.asyncdiff - BitVec.ofNat 64 (req.count.toNat % 2 ^ 32)).toNat +
      ((w.done ++ [_]).map Submitted.payload).sum = size at hnext
    rw [completed_append, h.same, BitVec.toNat_sub, BitVec.toNat_ofNat] at hnext
    have hmod : req.count.toNat % 2 ^ 32 = min req.origcount.toNat req.count.toNat := by
      have hlt := w.sbuf.diff.isLt
      omega
    refine Or.inl ⟨hmod, hshort, _, hturn, rfl, rfl, ?_⟩
    show w.sbuf.asyncdiff - BitVec.ofNat 64 (req.count.toNat % 2 ^ 32) = _
    rw [hmod]
  · by_cases heof : req.count.toNat % 2 ^ 32 = 2 ^ 32 - 323
    · rw [sbufCheck_eof heof] at hturn
      have hnext := hsound.balance _ (Reaches.refl.next hturn)
      change 0 + ((w.done ++ [_]).map Submitted.payload).sum = size at hnext
      rw [completed_append] at hnext
      exact Or.inr ⟨heof, by omega⟩
    · rw [sbufCheck_failed hshort heof] at hturn
      exact absurd hturn hsound.not_failed

/-- **A buffer whose loop is right fits.**  By induction on what is left to write: a whole
chunk leaves a smaller buffer, and the tail must be without padding. -/
theorem fits_of_sound (hdirect : o.writend.usesDirectio = true) (hsound : Sound o size w)
    (h : Fresh w) : Fits (writeLimit o).toNat w.sbuf.diff.toNat := by
  induction hn : w.sbuf.diff.toNat using Nat.strongRecOn generalizing w with
  | ind n ih =>
      subst hn
      have hpos := h.pos
      by_cases hfull : writeLimit o ≤ w.sbuf.diff
      · have hfull' : (writeLimit o).toNat ≤ w.sbuf.diff.toNat := BitVec.le_def.mp hfull
        have hreq := simpleWriteBytes_limit hfull
        have hlimit : 0 < (writeLimit o).toNat := hsound.pos h hreq
        rcases hsound.told h hreq with
          ⟨hmod, hshort, w', hturn, hqueue, hdiff, hasync⟩ | ⟨hmod, hall⟩
        · change (writeLimit o).toNat % _ = min (writeLimit o).toNat (writeLimit o).toNat at hmod
          change (writeLimit o).toNat % _ < _ at hshort
          change w'.sbuf.diff = w.sbuf.diff - writeLimit o at hdiff
          rw [Nat.min_self] at hmod
          have hrest : w'.sbuf.diff.toNat = w.sbuf.diff.toNat - (writeLimit o).toNat := by
            rw [hdiff, BitVec.toNat_sub_of_le hfull]
          refine Or.inl ⟨hlimit, by omega, ?_⟩
          rw [Nat.mod_eq_sub_mod hfull', ← hrest]
          by_cases hzero : w'.sbuf.diff = 0
          · rw [hzero]
            exact congrArg (· % blockAlign) (Nat.zero_mod _)
          · have hsame : w'.sbuf.asyncdiff = w'.sbuf.diff := by
              rw [hasync, hdiff, h.same]
              show _ - BitVec.ofNat 64 (min (writeLimit o).toNat (writeLimit o).toNat) = _
              rw [Nat.min_self, BitVec.ofNat_toNat, BitVec.setWidth_eq]
            rcases ih w'.sbuf.diff.toNat (by omega) (hsound.next hturn) ⟨hzero, hsame, hqueue⟩
              rfl with ⟨-, -, halign⟩ | ⟨hsize, -, heof⟩
            · exact halign
            · omega
        · change (writeLimit o).toNat % _ = _ at hmod
          change min (writeLimit o).toNat (writeLimit o).toNat = _ at hall
          have hlong : (writeLimit o).toNat < _ := hsound.long h hreq
          rw [Nat.min_self] at hall
          exact Or.inr ⟨hall.symm, by omega, by rw [← hall, hmod]⟩
      · have hless : w.sbuf.diff < writeLimit o := BitVec.not_le.mp hfull
        have hless' : w.sbuf.diff.toNat < (writeLimit o).toNat := BitVec.lt_def.mp hless
        cases hreq : simpleWriteBytes o w.sbuf with
        | none =>
            have hleft : w.sbuf.asyncdiff ≠ 0 := fun hzero => h.diff (h.same.symm.trans hzero)
            obtain ⟨w', hends⟩ := hsound.ends
            cases (Ends.stop_iff (asyncTurn_aborted hleft h.diff hreq)).mp hends
        | some req =>
            have hcount := hsound.pos h hreq
            have htail := hreq
            rw [simpleWriteBytes_tail hdirect hless] at htail
            obtain ⟨horig, hle, hlt, halign⟩ := simpleEndTransaction_parts htail hcount
            have htold := hsound.told h hreq
            rw [horig, Nat.min_eq_left hle] at htold
            unfold blockAlign at hlt halign
            rcases htold with ⟨hmod, hshort, -⟩ | ⟨hmod, -⟩
            · refine Or.inl ⟨by omega, by omega, ?_⟩
              rw [Nat.mod_eq_of_lt hless']
              unfold blockAlign
              omega
            · omega

/-- **The asynchronous loop ends when its writes are complete** exactly for the buffers that
fit. -/
theorem completes_iff (hback : o.writend = .recAio) (hrecer : s.recer = true)
    (hsize : s.diff ≠ 0) : Completes o s ↔ Fits (writeLimit o).toNat s.diff.toNat := by
  have hdirect : o.writend.usesDirectio = true := by
    rw [hback]
    rfl
  constructor
  · intro h
    obtain ⟨hbalance, w, hends, -⟩ := h prompt prompt_fair
    have hsound : Sound o s.diff.toNat (entered s) :=
      ⟨fun w' hreach => (hbalance w' hreach).1, w, hends⟩
    exact fits_of_sound hdirect hsound ⟨hsize, rfl, rfl⟩
  · exact completes_of_fits hdirect hrecer

/-- Chunks of two blocks for the asynchronous back end. -/
def aioOpt : Opt := { Writing.defOpt with writend := .recAio, asyncWrite := true }

/-- Three blocks, in chunks of two. -/
theorem completes_iff_blocks : Completes aioOpt (Writing.filled 12288) :=
  (completes_iff rfl rfl (by decide)).mpr (Or.inl (by decide))

/-- **A padded tail.**  The last 100 bytes are submitted as a block, and its completion takes
4096 off `asyncdiff`. -/
theorem tail_wraps : ¬ ∀ (o : Opt) (s : Sbuf), o.writend = .recAio → s.recer = true →
    s.diff ≠ 0 → 0 < o.doWStuffEvery → Completes o s := by
  intro h
  obtain ⟨hbalance, -⟩ :=
    h aioOpt (Writing.filled 100) rfl rfl (by decide) (by decide) prompt prompt_fair
  have hturn : asyncTurn aioOpt prompt (entered (Writing.filled 100)) =
      .again ⟨⟨0, BitVec.ofInt 64 (100 - 4096), 100, true, true⟩, [], [⟨0, ⟨4096, 100⟩⟩], 1, 1,
        [.write 4096, .check 4096]⟩ := rfl
  have hnext := (hbalance _ (Reaches.refl.next hturn)).1
  revert hnext
  decide

end Results

end AsyncWriting

end VlbiStreamer.Recorder
