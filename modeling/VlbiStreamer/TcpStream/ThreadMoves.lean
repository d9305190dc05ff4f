import VlbiStreamer.TcpStream.FullRounds

/-!
# A thread that receives a TCP stream

`Moves` is what a step of `threaded_multistream` does to the thread.  `Stands` is where a
thread can be with the packets it has of a buffer, whatever its flags are, and `Sound` what
its flags are while the main loop goes on.  A thread that has `reported` either `Waits` for
the next buffer or has come to an end.
-/

namespace VlbiStreamer.TcpStream

open BufData

variable {S : ℕ} [NeZero S]

/-- What the steps of a thread do to it. -/
inductive Moves (o : Opt) (bd : BufData S) (t : Fin S) (th : Thread S) :
    ThreadAction → Thread S → Prop
  | headOn (hpos : th.pos = .head) (hkeep : th.status.keepRunning = true) :
      Moves o bd t th .head { th with pos := .locking }
  | headOff (hpos : th.pos = .head) (hkeep : th.status.keepRunning = false) :
      Moves o bd t th .head { th with pos := .exited }
  | lockFull (hpos : th.pos = .locking) (hfull : th.status.allFull = true) :
      Moves o bd t th .lock { th with pos := .sleeping }
  | lockOn (hpos : th.pos = .locking) (hfull : th.status.allFull = false)
      (hkeep : th.status.keepRunning = true) : Moves o bd t th .lock { th with pos := .starting }
  | lockOff (hpos : th.pos = .locking) (hfull : th.status.allFull = false)
      (hkeep : th.status.keepRunning = false) : Moves o bd t th .lock { th with pos := .exited }
  | wake (hpos : th.pos = .sleeping) : Moves o bd t th .wake { th with pos := .locking }
  | begin (hpos : th.pos = .starting) :
      Moves o bd t th .begin { th with pos := .receiving, ready := 0, spot := th.buf, bd := bd }
  | testMore (hpos : th.pos = .receiving) (hready : th.ready < th.bd.maxPackets o.bufNumElems t)
      (hkeep : th.status.keepRunning = true) : Moves o bd t th .test { th with pos := .inRecv }
  | testDone (hpos : th.pos = .receiving)
      (hdone : th.bd.maxPackets o.bufNumElems t ≤ th.ready ∨ th.status.keepRunning = false) :
      Moves o bd t th .test { th with pos := .storing }
  | packet (hpos : th.pos = .inRecv) :
      Moves o bd t th .packet
        { th with pos := .receiving, ready := th.ready + 1, got := th.got + 1 }
  | close (hpos : th.pos = .inRecv) :
      Moves o bd t th .close { th with pos := .storing, status := .closed }
  | fail (hpos : th.pos = .inRecv) :
      Moves o bd t th .fail { th with pos := .storing, status := .failed }
  | store (hpos : th.pos = .storing) :
      Moves o bd t th .store { th with pos := .reporting, bytesReceived := th.ready }
  | lockMainFull (hpos : th.pos = .reporting)
      (hready : th.ready = th.bd.maxPackets o.bufNumElems t) :
      Moves o bd t th .lockMain { th with pos := .counting (some th.status) }
  | lockMainRest (hpos : th.pos = .reporting)
      (hready : th.ready ≠ th.bd.maxPackets o.bufNumElems t) :
      Moves o bd t th .lockMain { th with pos := .counting none }
  | reportFull {st : ThreadStatus} (hpos : th.pos = .counting (some st)) :
      Moves o bd t th .report { th with pos := .head, status := st.full }
  | reportRest (hpos : th.pos = .counting none) :
      Moves o bd t th .report { th with pos := .head }

omit [NeZero S] in
theorem moves_of_next {o : Opt} {bd : BufData S} {t : Fin S} {th th' : Thread S}
    {a : ThreadAction} (h : th.next o bd t a = some th') : Moves o bd t th a th' := by
  cases a
  case report =>
    simp only [Thread.next] at h
    split at h
    next seen hpos =>
      cases h
      cases seen with
      | none => exact .reportRest hpos
      | some st => exact .reportFull hpos
    next => cases h
  all_goals
    simp only [Thread.next, Option.ite_some_none_eq_some] at h
    obtain ⟨hpos, rfl⟩ := h
  case head =>
    cases hkeep : th.status.keepRunning with
    | true => exact .headOn hpos hkeep
    | false => exact .headOff hpos hkeep
  case lock =>
    cases hfull : th.status.allFull with
    | true => exact .lockFull hpos hfull
    | false =>
        cases hkeep : th.status.keepRunning with
        | true => exact .lockOn hpos hfull hkeep
        | false => exact .lockOff hpos hfull hkeep
  case wake => exact .wake hpos
  case begin => exact .begin hpos
  case test =>
    split_ifs with hmore
    · exact .testMore hpos hmore.1 hmore.2
    · refine .testDone hpos ?_
      rw [not_and_or, not_lt, Bool.not_eq_true] at hmore
      exact hmore
  case packet => exact .packet hpos
  case close => exact .close hpos
  case fail => exact .fail hpos
  case store => exact .store hpos
  case lockMain =>
    split_ifs with hready
    · exact .lockMainFull hpos hready
    · exact .lockMainRest hpos hready

omit [NeZero S] in
theorem Moves.next_eq {o : Opt} {bd : BufData S} {t : Fin S} {th th' : Thread S}
    {a : ThreadAction} (h : Moves o bd t th a th') : th.next o bd t a = some th' := by
  cases h with
  | testDone hpos hdone =>
      rw [← not_lt, ← Bool.not_eq_true, ← not_and_or] at hdone
      simp [Thread.next, hpos, if_neg hdone]
  | _ => simp_all [Thread.next]

namespace Thread

/-- The flags let the thread go on. -/
def goesOn (th : Thread S) : Bool := th.status.keepRunning && !th.status.allFull

/-- More packets may come into the buffer. -/
def isOpen (th : Thread S) : Bool :=
  match th.pos with
  | .starting | .receiving | .inRecv | .storing => true
  | .head | .locking => th.goesOn
  | _ => false

/-- The thread has reported, and waits or has ended. -/
def reported (th : Thread S) : Bool :=
  match th.pos with
  | .head | .locking | .sleeping | .exited => decide (th.status ≠ .running)
  | _ => false

/-- The packets that have come for buffer `b`. -/
def come (o : Opt) (b : ℕ) (t : Fin S) (th : Thread S) : ℕ := th.got - taken o b t

/-- The thread is filling buffer `b`. -/
def Looks (o : Opt) (b : ℕ) (t : Fin S) (th : Thread S) : Prop :=
  th.spot = b ∧ th.bd = receiving S o.bufNumElems b ∧ th.got = taken o b t + th.ready

/-- Where the thread can be with what it has of buffer `b`. -/
def Stands (o : Opt) (b : ℕ) (t : Fin S) (th : Thread S) : Prop :=
  match th.pos with
  | .head | .locking => th.goesOn = true → th.got = taken o b t ∧ th.buf = b
  | .starting => th.got = taken o b t ∧ th.buf = b
  | .receiving => th.Looks o b t ∧ th.ready ≤ share o b t
  | .inRecv => th.Looks o b t ∧ th.ready < share o b t
  | .storing | .reporting =>
      th.Looks o b t ∧ th.ready ≤ share o b t ∧
        (th.ready = share o b t ∨ th.status.keepRunning = false)
  | .counting seen => seen = none → th.status.keepRunning = false
  | .sleeping => th.goesOn = false
  | .exited => True

/-- The packets that have come are some of the thread's. -/
structure Has (o : Opt) (b : ℕ) (t : Fin S) (th : Thread S) : Prop where
  stands : th.Stands o b t
  le_got : taken o b t ≤ th.got
  got_le : th.got ≤ taken o b t + share o b t

/-- The thread has come to an end with its packets. -/
def Ends (o : Opt) (b : ℕ) (t : Fin S) (th : Thread S) : Prop :=
  (th.status = .closed ∨ th.status = .failed) ∧ th.got < taken o b t + share o b t

/-- The thread has all its packets and has said so. -/
def Fulls (o : Opt) (b : ℕ) (t : Fin S) (th : Thread S) : Prop :=
  th.status = .full .running ∧ th.got = taken o b t + share o b t

/-- The flags of a thread while the main loop goes on. -/
def Sound (o : Opt) (b : ℕ) (t : Fin S) (th : Thread S) : Prop :=
  match th.pos with
  | .head => th.status = .running ∨ th.Fulls o b t ∨ th.Ends o b t
  | .locking => th.status = .running ∨ th.Fulls o b t
  | .sleeping => th.Fulls o b t
  | .starting | .receiving | .inRecv => th.status = .running
  | .storing | .reporting => th.status = .running ∨ th.Ends o b t
  | .counting (some st) =>
      st = .running ∧ th.status = .running ∧ th.got = taken o b t + share o b t
  | .counting none | .exited => th.Ends o b t

variable {o : Opt} {b : ℕ} {r : BufData S} {t : Fin S} {th th' : Thread S} {a : ThreadAction}

theorem Looks.spot (h : th.Looks o b t) : th.spot = b := h.1

theorem Looks.bd (h : th.Looks o b t) : th.bd = receiving S o.bufNumElems b := h.2.1

theorem Looks.got (h : th.Looks o b t) : th.got = taken o b t + th.ready := h.2.2

/-- What a thread has is what is in its buffer. -/
theorem Looks.come (h : th.Looks o b t) : th.come o b t = th.ready := by
  rw [Thread.come, h.got, Nat.add_sub_cancel_left]

/-- A step keeps where the thread stands. -/
theorem Has.moves (h : th.Has o b t)
    (hmove : Moves o (receiving S o.bufNumElems b) t th a th') : th'.Has o b t := by
  obtain ⟨hstands, hle, hge⟩ := h
  cases hmove with
  | headOn hpos hkeep =>
      rw [Stands, hpos] at hstands
      exact ⟨hstands, hle, hge⟩
  | headOff hpos hkeep => exact ⟨trivial, hle, hge⟩
  | lockFull hpos hfull => exact ⟨by simp [Stands, goesOn, hfull], hle, hge⟩
  | lockOn hpos hfull hkeep =>
      rw [Stands, hpos] at hstands
      exact ⟨hstands (by simp [goesOn, hfull, hkeep]), hle, hge⟩
  | lockOff hpos hfull hkeep => exact ⟨trivial, hle, hge⟩
  | wake hpos =>
      rw [Stands, hpos] at hstands
      exact ⟨fun hgo => absurd (hgo.symm.trans hstands) (by simp), hle, hge⟩
  | begin hpos =>
      rw [Stands, hpos] at hstands
      exact ⟨⟨⟨hstands.2, rfl, hstands.1⟩, Nat.zero_le _⟩, hle, hge⟩
  | testMore hpos hready hkeep =>
      rw [Stands, hpos] at hstands
      obtain ⟨⟨hspot, hbd, hgot⟩, -⟩ := hstands
      rw [hbd] at hready
      exact ⟨⟨⟨hspot, hbd, hgot⟩, hready⟩, hle, hge⟩
  | testDone hpos hdone =>
      rw [Stands, hpos] at hstands
      obtain ⟨⟨hspot, hbd, hgot⟩, hready⟩ := hstands
      rw [hbd] at hdone
      exact ⟨⟨⟨hspot, hbd, hgot⟩, hready, hdone.imp_left hready.antisymm⟩, hle, hge⟩
  | packet hpos =>
      rw [Stands, hpos] at hstands
      obtain ⟨⟨hspot, hbd, hgot⟩, hready⟩ := hstands
      refine ⟨⟨⟨hspot, hbd, ?_⟩, hready⟩, ?_, ?_⟩
      · show th.got + 1 = taken o b t + (th.ready + 1)
        omega
      · show taken o b t ≤ th.got + 1
        omega
      · show th.got + 1 ≤ _
        omega
  | close hpos =>
      rw [Stands, hpos] at hstands
      obtain ⟨⟨hspot, hbd, hgot⟩, hready⟩ := hstands
      exact ⟨⟨⟨hspot, hbd, hgot⟩, hready.le, .inr rfl⟩, hle, hge⟩
  | fail hpos =>
      rw [Stands, hpos] at hstands
      obtain ⟨⟨hspot, hbd, hgot⟩, hready⟩ := hstands
      exact ⟨⟨⟨hspot, hbd, hgot⟩, hready.le, .inr rfl⟩, hle, hge⟩
  | store hpos =>
      rw [Stands, hpos] at hstands
      obtain ⟨⟨hspot, hbd, hgot⟩, hends⟩ := hstands
      exact ⟨⟨⟨hspot, hbd, hgot⟩, hends⟩, hle, hge⟩
  | lockMainFull hpos hready => exact ⟨fun hnone => (by cases hnone), hle, hge⟩
  | lockMainRest hpos hready =>
      rw [Stands, hpos] at hstands
      obtain ⟨⟨-, hbd, -⟩, -, hends⟩ := hstands
      rw [hbd] at hready
      exact ⟨fun _ => hends.resolve_left hready, hle, hge⟩
  | reportFull hpos =>
      exact ⟨fun hgo => absurd hgo (by simp [goesOn, ThreadStatus.full]), hle, hge⟩
  | reportRest hpos =>
      rw [Stands, hpos] at hstands
      exact ⟨fun hgo => absurd hgo (by simp [goesOn, hstands rfl]), hle, hge⟩

/-- A step keeps the flags sound. -/
theorem Sound.moves (h : th.Sound o b t) (hhas : th.Has o b t)
    (hmove : Moves o (receiving S o.bufNumElems b) t th a th') : th'.Sound o b t := by
  have hstands := hhas.stands
  cases hmove with
  | headOn hpos hkeep =>
      rw [Sound, hpos] at h
      refine h.imp id fun hor => hor.resolve_right fun hends => ?_
      obtain hst | hst := hends.1 <;> simp [hst, ThreadStatus.closed, ThreadStatus.failed] at hkeep
  | headOff hpos hkeep =>
      rw [Sound, hpos] at h
      obtain hst | hst | hends := h
      · simp [hst, ThreadStatus.running] at hkeep
      · simp [hst.1, ThreadStatus.running, ThreadStatus.full] at hkeep
      · exact hends
  | lockFull hpos hfull =>
      rw [Sound, hpos] at h
      refine h.resolve_left fun hst => ?_
      simp [hst, ThreadStatus.running] at hfull
  | lockOn hpos hfull hkeep =>
      rw [Sound, hpos] at h
      refine h.resolve_right fun hst => ?_
      simp [hst.1, ThreadStatus.full] at hfull
  | lockOff hpos hfull hkeep =>
      rw [Sound, hpos] at h
      obtain hst | hst := h
      · simp [hst, ThreadStatus.running] at hkeep
      · simp [hst.1, ThreadStatus.full] at hfull
  | wake hpos =>
      rw [Sound, hpos] at h
      exact .inr h
  | begin hpos =>
      rw [Sound, hpos] at h
      exact h
  | testMore hpos hready hkeep =>
      rw [Sound, hpos] at h
      exact h
  | testDone hpos hdone =>
      rw [Sound, hpos] at h
      exact .inl h
  | packet hpos =>
      rw [Sound, hpos] at h
      exact h
  | close hpos =>
      rw [Stands, hpos] at hstands
      refine .inr ⟨.inl rfl, ?_⟩
      show th.got < _
      have hgot := hstands.1.got
      have hready := hstands.2
      omega
  | fail hpos =>
      rw [Stands, hpos] at hstands
      refine .inr ⟨.inr rfl, ?_⟩
      show th.got < _
      have hgot := hstands.1.got
      have hready := hstands.2
      omega
  | store hpos =>
      rw [Sound, hpos] at h
      exact h
  | lockMainFull hpos hready =>
      rw [Sound, hpos] at h
      rw [Stands, hpos] at hstands
      obtain ⟨⟨-, hbd, hgot⟩, -⟩ := hstands
      rw [hbd] at hready
      have hall : th.got = taken o b t + share o b t := hgot.trans (by rw [hready]; rfl)
      have hst := h.resolve_right fun hends => absurd hall hends.2.ne
      exact ⟨hst, hst, hall⟩
  | lockMainRest hpos hready =>
      rw [Sound, hpos] at h
      rw [Stands, hpos] at hstands
      obtain ⟨⟨-, hbd, -⟩, -, hends⟩ := hstands
      rw [hbd] at hready
      refine h.resolve_left fun hst => ?_
      have hkeep := hends.resolve_left hready
      simp [hst, ThreadStatus.running] at hkeep
  | reportFull hpos =>
      rw [Sound, hpos] at h
      exact .inr (.inl ⟨by rw [h.1], h.2.2⟩)
  | reportRest hpos =>
      rw [Sound, hpos] at h
      exact .inr (.inr h)

/-- Only the report of a thread makes it one that has reported. -/
theorem Sound.reported_eq (h : th.Sound o b t)
    (hmove : Moves o (receiving S o.bufNumElems b) t th a th') (ha : a ≠ .report) :
    th'.reported = th.reported := by
  cases hmove with
  | headOn hpos hkeep => simp [reported, hpos]
  | headOff hpos hkeep => simp [reported, hpos]
  | lockFull hpos hfull => simp [reported, hpos]
  | lockOn hpos hfull hkeep =>
      rw [Sound, hpos] at h
      have hst := h.resolve_right fun hst => by simp [hst.1, ThreadStatus.full] at hfull
      simp [reported, hpos, hst]
  | lockOff hpos hfull hkeep => simp [reported, hpos]
  | wake hpos => simp [reported, hpos]
  | begin hpos => simp [reported, hpos]
  | testMore hpos hready hkeep => simp [reported, hpos]
  | testDone hpos hdone => simp [reported, hpos]
  | packet hpos => simp [reported, hpos]
  | close hpos => simp [reported, hpos]
  | fail hpos => simp [reported, hpos]
  | store hpos => simp [reported, hpos]
  | lockMainFull hpos hready => simp [reported, hpos]
  | lockMainRest hpos hready => simp [reported, hpos]
  | reportFull hpos => exact absurd rfl ha
  | reportRest hpos => exact absurd rfl ha

theorem Sound.reported_report (h : th.Sound o b t)
    (hmove : Moves o (receiving S o.bufNumElems b) t th .report th') :
    th.reported = false ∧ th'.reported = true := by
  cases hmove with
  | reportFull hpos =>
      rw [Sound, hpos] at h
      simp [reported, hpos, ThreadStatus.full, ThreadStatus.running]
  | reportRest hpos =>
      rw [Sound, hpos] at h
      obtain hst | hst := h.1 <;>
        simp [reported, hpos, hst, ThreadStatus.closed, ThreadStatus.failed, ThreadStatus.running]

omit [NeZero S] in
/-- A thread that has reported only goes to sleep or exits. -/
theorem moves_of_reported (h : th.reported = true) (hmove : Moves o r t th a th')
    (hfull : th.pos = .locking → th.status.allFull = true) :
    a ≠ .report ∧ th'.reported = true ∧ th'.status = th.status ∧ th'.got = th.got ∧
      th'.bytesReceived = th.bytesReceived ∧ th'.joined = th.joined := by
  cases hmove with
  | headOn hpos hkeep => simp_all [reported]
  | headOff hpos hkeep => simp_all [reported]
  | lockFull hpos hfull => simp_all [reported]
  | lockOn hpos hnot hkeep => simp [hfull hpos] at hnot
  | lockOff hpos hfull hkeep => simp_all [reported]
  | wake hpos => simp_all [reported]
  | _ => simp_all [reported]

/-- A thread that has reported either waits with all its packets or has come to an end. -/
theorem Sound.cases_of_reported (h : th.Sound o b t) (hreported : th.reported = true) :
    (th.Fulls o b t ∧ (th.pos = .head ∨ th.pos = .locking ∨ th.pos = .sleeping)) ∨
      (th.Ends o b t ∧ (th.pos = .head ∨ th.pos = .exited)) := by
  unfold Sound at h
  unfold reported at hreported
  split at h <;> rename_i hpos <;> simp only [hpos] at hreported
  · have hne : th.status ≠ .running := by simpa using hreported
    exact (h.resolve_left hne).imp (⟨·, .inl hpos⟩) (⟨·, .inl hpos⟩)
  · have hne : th.status ≠ .running := by simpa using hreported
    exact .inl ⟨h.resolve_left hne, .inr (.inl hpos)⟩
  · exact .inl ⟨h, .inr (.inr hpos)⟩
  all_goals first
    | exact absurd hreported Bool.false_ne_true
    | exact .inr ⟨h, .inr hpos⟩

/-- The thread waits for the next buffer. -/
structure Waits (th : Thread S) : Prop where
  pos : th.pos = .head ∨ th.pos = .locking ∨ th.pos = .sleeping
  status : th.status = .full .running

theorem Sound.waits (h : th.Sound o b t) (hreported : th.reported = true)
    (hgot : th.got = taken o b t + share o b t) : th.Waits := by
  obtain ⟨hfull, hpos⟩ | ⟨hends, -⟩ := h.cases_of_reported hreported
  · exact ⟨hpos, hfull.1⟩
  · exact absurd hgot hends.2.ne

omit [NeZero S] in
theorem Waits.goesOn (h : th.Waits) : th.goesOn = false := by
  rw [Thread.goesOn, h.status]
  rfl

omit [NeZero S] in
theorem Waits.isOpen (h : th.Waits) : th.isOpen = false := by
  obtain hpos | hpos | hpos := h.pos <;> simp [Thread.isOpen, hpos, h.goesOn]

theorem Sound.isOpen_of_reported (h : th.Sound o b t) (hreported : th.reported = true) :
    th.isOpen = false := by
  obtain ⟨hfull, hpos⟩ | ⟨hends, hpos | hpos⟩ := h.cases_of_reported hreported
  · exact Waits.isOpen ⟨hpos, hfull.1⟩
  · obtain hst | hst := hends.1 <;>
      simp [isOpen, hpos, goesOn, hst, ThreadStatus.closed, ThreadStatus.failed]
  · simp [isOpen, hpos]

theorem Sound.allFull (h : th.Sound o b t) (hreported : th.reported = true)
    (hpos : th.pos = .locking) : th.status.allFull = true := by
  obtain ⟨hfull, -⟩ | ⟨-, hother | hother⟩ := h.cases_of_reported hreported
  · rw [hfull.1]
    rfl
  · rw [hpos] at hother
    cases hother
  · rw [hpos] at hother
    cases hother

theorem Sound.ends (h : th.Sound o b t) (hreported : th.reported = true)
    (hclean : th.status.cleanExit = true) : th.Ends o b t := by
  obtain ⟨hfull, -⟩ | ⟨hends, -⟩ := h.cases_of_reported hreported
  · rw [hfull.1] at hclean
    cases hclean
  · exact hends

theorem Waits.stands (h : th.Waits) : th.Stands o b t := by
  have hgo := h.goesOn
  obtain hpos | hpos | hpos := h.pos <;> simp [Stands, hpos, hgo]

omit [NeZero S] in
/-- A thread that waits goes to sleep, and no more. -/
theorem Waits.moves (h : th.Waits) (hmove : Moves o r t th a th') :
    th'.Waits ∧ th'.got = th.got ∧ th'.bytesReceived = th.bytesReceived ∧
      th'.joined = th.joined := by
  obtain ⟨hpos, hstatus⟩ := h
  have hkeep : th.status.keepRunning = true := by rw [hstatus]; rfl
  have hfull : th.status.allFull = true := by rw [hstatus]; rfl
  cases hmove with
  | headOn => exact ⟨⟨.inr (.inl rfl), hstatus⟩, rfl, rfl, rfl⟩
  | lockFull => exact ⟨⟨.inr (.inr rfl), hstatus⟩, rfl, rfl, rfl⟩
  | wake => exact ⟨⟨.inr (.inl rfl), hstatus⟩, rfl, rfl, rfl⟩
  | _ => simp_all

omit [NeZero S] in
/-- The flags of a thread that waits are cleared. -/
theorem Waits.released (h : th.Waits) (file : ℕ) :
    ∃ pos, (pos = .head ∨ pos = .locking) ∧
      ({ th.woken with
        buf := file
        status := if th.status.keepRunning then .running else th.status } : Thread S) =
      { th with pos := pos, buf := file, status := .running } := by
  have hkeep : th.status.keepRunning = true := by rw [h.status]; rfl
  rw [if_pos hkeep]
  obtain hpos | hpos | hpos := h.pos
  · exact ⟨.head, .inl rfl, by simp [woken, hpos]⟩
  · exact ⟨.locking, .inr rfl, by simp [woken, hpos]⟩
  · exact ⟨.locking, .inr rfl, by simp [woken, hpos]⟩

/-- The rundown clears the flags. -/
theorem Has.clear (h : th.Has o b t) : ({ th with status := .cleared } : Thread S).Has o b t := by
  obtain ⟨hstands, hle, hge⟩ := h
  refine ⟨?_, hle, hge⟩
  unfold Stands at hstands ⊢
  cases hpos : th.pos <;> simp only [hpos] at hstands ⊢
  case head => exact fun hno => by cases hno
  case locking => exact fun hno => by cases hno
  case sleeping => rfl
  case starting => exact hstands
  case receiving => exact hstands
  case inRecv => exact hstands
  case storing => exact ⟨hstands.1, hstands.2.1, .inr rfl⟩
  case reporting => exact ⟨hstands.1, hstands.2.1, .inr rfl⟩
  case counting => exact fun _ => rfl

omit [NeZero S] in
theorem isOpen_of_clear (h : ({ th with status := .cleared } : Thread S).isOpen = true) :
    th.isOpen = true := by
  unfold isOpen at h ⊢
  cases hpos : th.pos <;> simp only [hpos] at h ⊢
  case head => cases h
  case locking => cases h
  all_goals exact absurd h Bool.false_ne_true

theorem Has.woken (h : th.Has o b t) : th.woken.Has o b t := by
  unfold Thread.woken
  split
  next hpos =>
    obtain ⟨hstands, hle, hge⟩ := h
    rw [Stands, hpos] at hstands
    exact ⟨fun hgo => absurd (hgo.symm.trans hstands) (by simp), hle, hge⟩
  next => exact h

theorem Has.isOpen_woken (h : th.Has o b t) : th.woken.isOpen = th.isOpen := by
  unfold Thread.woken
  split
  next hpos =>
    have hstands := h.stands
    rw [Stands, hpos] at hstands
    show th.goesOn = _
    rw [hstands, isOpen, hpos]
  next => rfl

omit [NeZero S] in
@[simp] theorem woken_got : th.woken.got = th.got := by
  unfold Thread.woken
  split <;> rfl

omit [NeZero S] in
@[simp] theorem woken_bytesReceived : th.woken.bytesReceived = th.bytesReceived := by
  unfold Thread.woken
  split <;> rfl

/-- How much of what has come is reported and counted: `c` of it is counted, and `passed` is
whether the rundown is past the thread. -/
structure Added (o : Opt) (b : ℕ) (t : Fin S) (th : Thread S) (c : ℕ) (passed : Prop) :
    Prop where
  fresh : th.isOpen = true → th.bytesReceived = 0 ∧ c = 0
  counted : c = 0 ∨ c = th.come o b t
  bytes : ¬ passed → th.bytesReceived = 0 ∨ (th.bytesReceived = th.come o b t ∧ c = 0)

/-- What has come is reported once no more may come. -/
def Stored (o : Opt) (b : ℕ) (t : Fin S) (th : Thread S) : Prop :=
  th.isOpen = false → th.bytesReceived = th.come o b t

/-- No step opens a buffer that is closed; only one closes it. -/
theorem Has.isOpen_moves (h : th.Has o b t)
    (hmove : Moves o (receiving S o.bufNumElems b) t th a th') :
    th'.isOpen = (th.isOpen && decide (a ≠ .store)) := by
  have hstands := h.stands
  cases hmove with
  | headOn hpos hkeep => simp [isOpen, hpos, goesOn]
  | headOff hpos hkeep => simp [isOpen, hpos, goesOn, hkeep]
  | lockFull hpos hfull => simp [isOpen, hpos, goesOn, hfull]
  | lockOn hpos hfull hkeep => simp [isOpen, hpos, goesOn, hfull, hkeep]
  | lockOff hpos hfull hkeep => simp [isOpen, hpos, goesOn, hkeep]
  | wake hpos =>
      rw [Stands, hpos] at hstands
      show th.goesOn = _
      simp [isOpen, hpos, hstands]
  | begin hpos => simp [isOpen, hpos]
  | testMore hpos hready hkeep => simp [isOpen, hpos]
  | testDone hpos hdone => simp [isOpen, hpos]
  | packet hpos => simp [isOpen, hpos]
  | close hpos => simp [isOpen, hpos]
  | fail hpos => simp [isOpen, hpos]
  | store hpos => simp [isOpen, hpos]
  | lockMainFull hpos hready => simp [isOpen, hpos]
  | lockMainRest hpos hready => simp [isOpen, hpos]
  | reportFull hpos => simp [isOpen, hpos, goesOn, ThreadStatus.full]
  | reportRest hpos =>
      rw [Stands, hpos] at hstands
      simp [isOpen, hpos, goesOn, hstands rfl]

/-- Only `recv` and the store change what has come and what is reported. -/
theorem Has.moves_cases (h : th.Has o b t)
    (hmove : Moves o (receiving S o.bufNumElems b) t th a th') :
    (a = .packet ∧ th.isOpen = true ∧ th'.bytesReceived = th.bytesReceived ∧
        th'.got = th.got + 1) ∨
      (a = .store ∧ th.isOpen = true ∧ th'.bytesReceived = th.come o b t ∧ th'.got = th.got) ∨
      (a ≠ .packet ∧ a ≠ .store ∧ th'.bytesReceived = th.bytesReceived ∧ th'.got = th.got) := by
  have hstands := h.stands
  cases hmove with
  | packet hpos => exact .inl ⟨rfl, by simp [isOpen, hpos], rfl, rfl⟩
  | store hpos =>
      rw [Stands, hpos] at hstands
      exact .inr (.inl ⟨rfl, by simp [isOpen, hpos], hstands.1.come.symm, rfl⟩)
  | _ => exact .inr (.inr ⟨by simp, by simp, rfl, rfl⟩)

theorem Added.moves {c : ℕ} {passed : Prop} (h : th.Added o b t c passed) (hhas : th.Has o b t)
    (hmove : Moves o (receiving S o.bufNumElems b) t th a th') : th'.Added o b t c passed := by
  have hopen := hhas.isOpen_moves hmove
  obtain ⟨ha, hisOpen, hbytes, hgot⟩ | ⟨ha, hisOpen, hbytes, hgot⟩ | ⟨-, ha, hbytes, hgot⟩ :=
    hhas.moves_cases hmove
  · obtain ⟨hzero, hc⟩ := h.fresh hisOpen
    exact ⟨fun _ => ⟨hbytes.trans hzero, hc⟩, .inl hc, fun _ => .inl (hbytes.trans hzero)⟩
  · obtain ⟨-, hc⟩ := h.fresh hisOpen
    have hcome : th'.come o b t = th.come o b t := by rw [Thread.come, hgot, Thread.come]
    refine ⟨fun hisOpen' => ?_, .inl hc, fun _ => .inr ⟨hbytes.trans hcome.symm, hc⟩⟩
    simp [hopen, ha] at hisOpen'
  · have hcome : th'.come o b t = th.come o b t := by rw [Thread.come, hgot, Thread.come]
    have hsame : th'.isOpen = th.isOpen := by simp [hopen, ha]
    refine ⟨?_, ?_, ?_⟩
    · rw [hsame, hbytes]
      exact h.fresh
    · rw [hcome]
      exact h.counted
    · rw [hbytes, hcome]
      exact h.bytes

theorem Stored.moves (h : th.Stored o b t) (hhas : th.Has o b t)
    (hmove : Moves o (receiving S o.bufNumElems b) t th a th') : th'.Stored o b t := by
  have hopen := hhas.isOpen_moves hmove
  intro hclosed
  obtain ⟨ha, hisOpen, -, -⟩ | ⟨-, -, hbytes, hgot⟩ | ⟨-, ha, hbytes, hgot⟩ :=
    hhas.moves_cases hmove
  · simp [hopen, ha, hisOpen] at hclosed
  · rw [hbytes, Thread.come, Thread.come, hgot]
  · rw [hbytes, Thread.come, hgot]
    exact h (by simpa [hopen, ha] using hclosed)

end Thread

end VlbiStreamer.TcpStream
