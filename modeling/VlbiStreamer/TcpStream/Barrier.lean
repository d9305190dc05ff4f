import VlbiStreamer.TcpStream.ThreadMoves

/-!
# The barrier between the threads and the main thread

`Books` ties the threads to the buffer and to what is counted of it, in the main loop and in
the rundown.  In the main loop the threads are `Turn`ing until all have reported, the main
thread is `Adding` what they have, and it is `Releasing` them with the next buffer.
-/

namespace VlbiStreamer.TcpStream

open Library (sum_update_add sum_update_eq turnout turnout_lt_iff turnout_eq_zero)
open BufData

variable {S : ℕ} [NeZero S]

namespace Threaded

variable {o : Opt} {b i : ℕ} {t : Fin S} {a : ThreadAction} {s s' : Threaded S} {th : Thread S}

section Affect

variable (s) (t) (a)

omit [NeZero S]

@[simp] theorem affect_thread : (s.affect t a).thread = s.thread := by cases a <;> rfl

@[simp] theorem affect_received : (s.affect t a).received = s.received := by cases a <;> rfl

@[simp] theorem affect_bufData : (s.affect t a).bufData = s.bufData := by cases a <;> rfl

@[simp] theorem affect_counted : (s.affect t a).counted = s.counted := by cases a <;> rfl

@[simp] theorem affect_bufIncrementer : (s.affect t a).bufIncrementer = s.bufIncrementer := by
  cases a <;> rfl

@[simp] theorem affect_activeThreads : (s.affect t a).activeThreads = s.activeThreads := by
  cases a <;> rfl

@[simp] theorem affect_errorflag : (s.affect t a).errorflag = s.errorflag := by cases a <;> rfl

theorem affect_main (ha : a ≠ .report) : (s.affect t a).main = s.main := by
  cases a
  case report => exact absurd rfl ha
  all_goals rfl

theorem affect_threadsReadyOrErr (ha : a ≠ .report) :
    (s.affect t a).threadsReadyOrErr = s.threadsReadyOrErr := by
  cases a
  case report => exact absurd rfl ha
  all_goals rfl

theorem affect_memory (ha : a ≠ .packet) : (s.affect t a).memory = s.memory := by
  cases a
  case packet => exact absurd rfl ha
  all_goals rfl

end Affect

/-- A step of a thread. -/
theorem exists_moves (h : s.next o (.thread t a) = some s') :
    ∃ th', Moves o s.bufData t (s.thread t) a th' ∧ s.allows a = true ∧
      s' = (s.affect t a).set t th' := by
  simp only [next] at h
  split at h
  next hallows =>
    obtain ⟨th', hth', rfl⟩ := Option.map_eq_some_iff.mp h
    exact ⟨th', moves_of_next hth', hallows, rfl⟩
  next => cases h

end Threaded

/-- The rundown is past thread `t`. -/
def MainAt.passed (m : MainAt) (t : ℕ) : Prop :=
  match m with
  | .rundown i => t < i
  | .finishing => True
  | _ => False

@[simp] theorem MainAt.passed_signalled (m : MainAt) (t : ℕ) :
    m.signalled.passed t ↔ m.passed t := by cases m <;> rfl

namespace Threaded

variable {o : Opt} {b i : ℕ} {t : Fin S} {a : ThreadAction} {s s' : Threaded S} {th : Thread S}

/-- `b` buffers are handed over, and the next one holds what has come for it and counts some
of what is reported. -/
structure Books (o : Opt) (b : ℕ) (s : Threaded S) : Prop where
  received : s.received = after S o b
  bufData : s.bufData = receiving S o.bufNumElems b
  has : ∀ t, (s.thread t).Has o b t
  added : ∀ t, (s.thread t).Added o b t (s.counted t) (s.main.passed t)
  sum : s.bufIncrementer = ∑ t, s.counted t
  written : Written o b (fun t => (s.thread t).come o b t) (s.memory b)
  later : ∀ file j, b < file → s.memory file j = none

omit [NeZero S] in
/-- A step of a thread keeps what holds of every thread. -/
theorem forall_set {p : Fin S → Thread S → Prop} (h : ∀ u, p u (s.thread u)) (hth : p t th) :
    ∀ u, p u (((s.affect t a).set t th).thread u) := by
  show ∀ u, p u (Function.update (s.affect t a).thread t th u)
  rw [affect_thread]
  exact (Function.forall_update_iff _ p).mpr ⟨hth, fun u _ => h u⟩

/-- `recv` puts the packet where it belongs. -/
theorem Books.written_moves (h : s.Books o b)
    (hmove : Moves o (receiving S o.bufNumElems b) t (s.thread t) a th) :
    Written o b (fun u => (((s.affect t a).set t th).thread u).come o b u)
      ((s.affect t a).memory b) := by
  have hcome : (fun u => (((s.affect t a).set t th).thread u).come o b u) =
      Function.update (fun u => (s.thread u).come o b u) t (th.come o b t) := by
    funext u
    show (Function.update (s.affect t a).thread t th u).come o b u = _
    rw [affect_thread]
    exact Function.apply_update (fun u (th : Thread S) => th.come o b u) s.thread t th u
  rw [hcome]
  by_cases ha : a = .packet
  · subst ha
    have hhas := h.has t
    cases hmove with
    | packet hpos =>
        have hstands := hhas.stands
        rw [Thread.Stands, hpos] at hstands
        obtain ⟨hlooks, -⟩ := hstands
        have hgot := hlooks.got
        have hnext : (s.thread t).got + 1 - taken o b t = (s.thread t).come o b t + 1 := by
          rw [hlooks.come]
          omega
        show Written o b (Function.update _ t ((s.thread t).got + 1 - taken o b t)) _
        rw [hnext]
        refine h.written.write fun j => ?_
        show (if b = (s.thread t).spot ∧ j = (s.thread t).bd.slot t (s.thread t).ready then
          some (t + (s.thread t).got * S) else s.memory b j) = _
        simp only [hlooks.spot, hlooks.bd, hlooks.come, hgot, true_and]
  · rw [affect_memory _ _ _ ha]
    have hsame : th.come o b t = (s.thread t).come o b t := by
      obtain ⟨hpacket, -⟩ | ⟨-, -, -, hgot⟩ | ⟨-, -, -, hgot⟩ := (h.has t).moves_cases hmove
      · exact absurd hpacket ha
      · rw [Thread.come, hgot, Thread.come]
      · rw [Thread.come, hgot, Thread.come]
    rw [hsame, Function.update_eq_self]
    exact h.written

/-- A step of a thread keeps the books. -/
theorem Books.thread (h : s.Books o b) (hstep : s.next o (.thread t a) = some s') :
    s'.Books o b := by
  obtain ⟨th', hmove, -, rfl⟩ := exists_moves hstep
  rw [h.bufData] at hmove
  have hhas := h.has t
  have hpassed : ∀ u : Fin S, (s.affect t a).main.passed u ↔ s.main.passed u := by
    intro u
    by_cases ha : a = .report
    · subst ha
      exact MainAt.passed_signalled _ _
    · rw [affect_main _ _ _ ha]
  refine ⟨?_, ?_, forall_set h.has (hhas.moves hmove), ?_, ?_, h.written_moves hmove, ?_⟩
  · show (s.affect t a).received = _
    rw [affect_received, h.received]
  · show (s.affect t a).bufData = _
    rw [affect_bufData, h.bufData]
  · show ∀ u, Thread.Added o b u _ ((s.affect t a).counted u) ((s.affect t a).main.passed u)
    rw [affect_counted]
    simp only [hpassed]
    exact forall_set (p := fun u th => th.Added o b u (s.counted u) (s.main.passed u)) h.added
      ((h.added t).moves hhas hmove)
  · show (s.affect t a).bufIncrementer = ∑ u, (s.affect t a).counted u
    rw [affect_bufIncrementer, affect_counted, h.sum]
  · intro file j hfile
    show (s.affect t a).memory file j = none
    by_cases ha : a = .packet
    · subst ha
      have hspot : (s.thread t).spot = b := by
        have hstands := hhas.stands
        cases hmove with
        | packet hpos =>
            rw [Thread.Stands, hpos] at hstands
            exact hstands.1.spot
      show (if file = (s.thread t).spot ∧ _ then _ else s.memory file j) = none
      rw [if_neg (fun hno => by omega)]
      exact h.later file j hfile
    · rw [affect_memory _ _ _ ha]
      exact h.later file j hfile

/-- In a round: the main thread waits until all threads have reported. -/
structure Turn (o : Opt) (b : ℕ) (s : Threaded S) : Prop where
  books : s.Books o b
  sound : ∀ t, (s.thread t).Sound o b t
  stored : ∀ t, (s.thread t).Stored o b t
  joined : ∀ t, (s.thread t).joined = false
  active : s.activeThreads = S
  errorflag : s.errorflag = false
  counted : s.counted = 0
  count : s.threadsReadyOrErr = turnout fun t => (s.thread t).reported
  /-- No signal is lost. -/
  awake : s.main = .sleeping → ∃ t, (s.thread t).reported = false

/-- All threads have reported, and the main thread adds up what they have. -/
structure Adding (o : Opt) (b i : ℕ) (s : Threaded S) : Prop where
  books : s.Books o b
  sound : ∀ t, (s.thread t).Sound o b t
  reported : ∀ t, (s.thread t).reported = true
  errorflag : s.errorflag = false
  ended : ∀ t, (s.thread t).joined = true → (s.thread t).Ends o b t
  below : ∀ t : Fin S, t < i →
    s.counted t = (s.thread t).come o b t ∧ (s.thread t).bytesReceived = 0
  above : ∀ t : Fin S, i ≤ t → (s.thread t).bytesReceived = (s.thread t).come o b t ∧
    s.counted t = 0 ∧ (s.thread t).joined = false
  active : s.activeThreads + turnout (fun t => (s.thread t).joined) = S

/-- The buffer is changed, and no thread goes on yet. -/
structure Releasing (o : Opt) (b : ℕ) (s : Threaded S) : Prop where
  books : s.Books o b
  waits : ∀ t, (s.thread t).Waits
  got : ∀ t, (s.thread t).got = taken o b t
  bytes : ∀ t, (s.thread t).bytesReceived = 0
  joined : ∀ t, (s.thread t).joined = false
  active : s.activeThreads = S
  errorflag : s.errorflag = false
  counted : s.counted = 0

/-- `threads_ready_or_err` counts the threads that have reported. -/
theorem turnout_moves (hsound : ∀ t, (s.thread t).Sound o b t)
    (hmove : Moves o (receiving S o.bufNumElems b) t (s.thread t) a th)
    (hcount : s.threadsReadyOrErr = turnout fun t => (s.thread t).reported) :
    (s.affect t a).threadsReadyOrErr =
      turnout fun u => (((s.affect t a).set t th).thread u).reported := by
  show _ = ∑ u, ((Function.update (s.affect t a).thread t th u).reported).toNat
  rw [affect_thread]
  by_cases ha : a = .report
  · subst ha
    obtain ⟨hbefore, hafter⟩ := (hsound t).reported_report hmove
    have hsum := sum_update_add (fun _ (th : Thread S) => th.reported.toNat) s.thread t th
    rw [hbefore, hafter, Bool.toNat_false, Bool.toNat_true] at hsum
    rw [Nat.add_zero] at hsum
    rw [hsum]
    show s.threadsReadyOrErr + 1 = _
    rw [hcount]
    rfl
  · rw [affect_threadsReadyOrErr _ _ _ ha, hcount]
    refine (sum_update_eq (g := fun _ (th : Thread S) => th.reported.toNat) ?_).symm
    exact congrArg Bool.toNat ((hsound t).reported_eq hmove ha)

/-- A step of a thread in a round. -/
theorem Turn.thread (h : s.Turn o b) (hstep : s.next o (.thread t a) = some s') :
    s'.Turn o b := by
  have hbooks := h.books.thread hstep
  obtain ⟨th', hmove, -, rfl⟩ := exists_moves hstep
  rw [h.books.bufData] at hmove
  have hhas := h.books.has t
  have hjoined : th'.joined = false := by
    have hfalse := h.joined t
    cases hmove <;> exact hfalse
  refine ⟨hbooks, forall_set h.sound ((h.sound t).moves hhas hmove),
    forall_set h.stored ((h.stored t).moves hhas hmove),
    forall_set (p := fun _ th => th.joined = false) h.joined hjoined, ?_, ?_, ?_, ?_, ?_⟩
  · exact (affect_activeThreads t a s).trans h.active
  · exact (affect_errorflag t a s).trans h.errorflag
  · exact (affect_counted t a s).trans h.counted
  · exact turnout_moves h.sound hmove h.count
  · intro hmain
    by_cases ha : a = .report
    · subst ha
      -- the report has woken the main thread
      change s.main.signalled = .sleeping at hmain
      cases hs : s.main <;> simp [hs, MainAt.signalled] at hmain
    · change (s.affect t a).main = .sleeping at hmain
      rw [affect_main _ _ _ ha] at hmain
      obtain ⟨u, hu⟩ := h.awake hmain
      refine ⟨u, ?_⟩
      show (Function.update (s.affect t a).thread t th' u).reported = false
      rw [affect_thread]
      by_cases hut : u = t
      · subst hut
        rw [Function.update_self, (h.sound u).reported_eq hmove ha]
        exact hu
      · rw [Function.update_of_ne hut]
        exact hu

/-- A step of a thread that has reported. -/
theorem Adding.thread (h : s.Adding o b i) (hstep : s.next o (.thread t a) = some s') :
    s'.Adding o b i := by
  have hbooks := h.books.thread hstep
  obtain ⟨th', hmove, -, rfl⟩ := exists_moves hstep
  obtain ⟨ha, hreported, hstatus, hgot, hbytes, hjoined⟩ :=
    Thread.moves_of_reported (h.reported t) hmove ((h.sound t).allFull (h.reported t))
  rw [h.books.bufData] at hmove
  have hcome : th'.come o b t = (s.thread t).come o b t := by
    rw [Thread.come, hgot, Thread.come]
  refine ⟨hbooks, forall_set h.sound ((h.sound t).moves (h.books.has t) hmove),
    forall_set (p := fun _ th => th.reported = true) h.reported hreported,
    (affect_errorflag t a s).trans h.errorflag, ?_, ?_, ?_, ?_⟩
  · refine forall_set (p := fun u th => th.joined = true → th.Ends o b u) h.ended ?_
    rw [hjoined, Thread.Ends, hstatus, hgot]
    exact h.ended t
  · show ∀ u : Fin S, u < i → (s.affect t a).counted u = _ ∧ _
    rw [affect_counted]
    refine forall_set (p := fun u th => u < i → s.counted u = th.come o b u ∧
      th.bytesReceived = 0) h.below ?_
    rw [hcome, hbytes]
    exact h.below t
  · show ∀ u : Fin S, i ≤ u → _ ∧ (s.affect t a).counted u = 0 ∧ _
    rw [affect_counted]
    refine forall_set (p := fun u th => i ≤ u → th.bytesReceived = th.come o b u ∧
      s.counted u = 0 ∧ th.joined = false) h.above ?_
    rw [hcome, hbytes, hjoined]
    exact h.above t
  · show (s.affect t a).activeThreads +
      ∑ u, ((Function.update (s.affect t a).thread t th' u).joined).toNat = S
    rw [affect_activeThreads, affect_thread,
      sum_update_eq (g := fun _ (th : Thread S) => th.joined.toNat) (congrArg Bool.toNat hjoined)]
    exact h.active

/-- A step of a thread that waits for the next buffer. -/
theorem Releasing.thread (h : s.Releasing o b) (hstep : s.next o (.thread t a) = some s') :
    s'.Releasing o b := by
  have hbooks := h.books.thread hstep
  obtain ⟨th', hmove, -, rfl⟩ := exists_moves hstep
  obtain ⟨hwaits, hgot, hbytes, hjoined⟩ := (h.waits t).moves hmove
  exact ⟨hbooks, forall_set (p := fun _ th => th.Waits) h.waits hwaits,
    forall_set (p := fun u th => th.got = taken o b u) h.got (hgot.trans (h.got t)),
    forall_set (p := fun _ th => th.bytesReceived = 0) h.bytes (hbytes.trans (h.bytes t)),
    forall_set (p := fun _ th => th.joined = false) h.joined (hjoined.trans (h.joined t)),
    (affect_activeThreads t a s).trans h.active, (affect_errorflag t a s).trans h.errorflag,
    (affect_counted t a s).trans h.counted⟩

/-! ## The main thread -/

theorem Books.main (h : s.Books o b) {m : MainAt}
    (hpassed : ∀ t : Fin S, s.main.passed t → m.passed t) :
    ({ s with main := m } : Threaded S).Books o b :=
  { h with
    added := fun t =>
      { h.added t with bytes := fun hno => (h.added t).bytes fun hyes => hno (hpassed t hyes) } }

/-- All have reported. -/
theorem Turn.adding (h : s.Turn o b) (hcount : ¬ s.threadsReadyOrErr < s.activeThreads)
    (hpassed : ∀ t : Fin S, ¬ s.main.passed t) :
    ({ s with main := .collecting 0 } : Threaded S).Adding o b 0 := by
  rw [h.count, h.active] at hcount
  have hreported : ∀ t, (s.thread t).reported = true := by
    intro t
    by_contra hno
    have hlt := turnout_lt_iff (p := fun t => (s.thread t).reported).mpr ⟨t, by simpa using hno⟩
    rw [Fintype.card_fin] at hlt
    exact hcount hlt
  refine ⟨h.books.main fun t hno => absurd hno (hpassed t), h.sound, hreported, h.errorflag,
    fun t hjoined => ?_, fun t hlt => absurd hlt (Nat.not_lt_zero _), fun t _ => ?_, ?_⟩
  · exact absurd ((h.joined t).symm.trans hjoined) Bool.false_ne_true
  · exact ⟨h.stored t ((h.sound t).isOpen_of_reported (hreported t)), congrFun h.counted t,
      h.joined t⟩
  · show s.activeThreads + turnout (fun t => (s.thread t).joined) = S
    rw [h.active, turnout_eq_zero h.joined, Nat.add_zero]

/-- The main thread counts what a thread reports. -/
theorem Books.add (h : s.Books o b) {m : MainAt} {n : ℕ} {e : Bool} (hhas : th.Has o b t)
    (hgot : th.got = (s.thread t).got)
    (hadded : th.Added o b t (s.counted t + (s.thread t).bytesReceived) (m.passed t))
    (hpassed : ∀ u : Fin S, u ≠ t → s.main.passed u → m.passed u) :
    ({ (s.add t).set t th with activeThreads := n, errorflag := e, main := m } :
      Threaded S).Books o b := by
  have hcome : ∀ u, (Function.update s.thread t th u).come o b u = (s.thread u).come o b u := by
    intro u
    by_cases hu : u = t
    · subst hu
      rw [Function.update_self, Thread.come, hgot, Thread.come]
    · rw [Function.update_of_ne hu]
  refine ⟨h.received, h.bufData, ?_, ?_, ?_, ?_, h.later⟩
  · exact (Function.forall_update_iff s.thread fun u th => th.Has o b u).mpr
      ⟨hhas, fun u _ => h.has u⟩
  · intro u
    show (Function.update s.thread t th u).Added o b u
      (Function.update s.counted t (s.counted t + (s.thread t).bytesReceived) u) (m.passed u)
    by_cases hu : u = t
    · subst hu
      rw [Function.update_self, Function.update_self]
      exact hadded
    · rw [Function.update_of_ne hu, Function.update_of_ne hu]
      exact { h.added u with
        bytes := fun hno => (h.added u).bytes fun hyes => hno (hpassed u hu hyes) }
  · show s.bufIncrementer + (s.thread t).bytesReceived = ∑ u, Function.update s.counted t _ u
    have hsum := sum_update_add (fun _ (c : ℕ) => c) s.counted t
      (s.counted t + (s.thread t).bytesReceived)
    rw [h.sum]
    omega
  · show Written o b (fun u => (Function.update s.thread t th u).come o b u) (s.memory b)
    rw [funext hcome]
    exact h.written

/-- What a thread has reported is counted. -/
theorem Adding.books_add (h : s.Adding o b i) (ht : i ≤ t) {m : MainAt} {n : ℕ} {e j : Bool}
    (hpassed : ∀ u : Fin S, s.main.passed u → m.passed u) :
    ({ (s.add t).set t { s.thread t with bytesReceived := 0, joined := j } with
      activeThreads := n, errorflag := e, main := m } : Threaded S).Books o b := by
  obtain ⟨hbytes, hcounted, -⟩ := h.above t ht
  have hopen := (h.sound t).isOpen_of_reported (h.reported t)
  refine h.books.add ?_ rfl ?_ fun u _ => hpassed u
  · exact ⟨(h.books.has t).stands, (h.books.has t).le_got, (h.books.has t).got_le⟩
  · refine ⟨fun hyes => ?_, .inr ?_, fun _ => .inl rfl⟩
    · exact absurd (hopen.symm.trans hyes) Bool.false_ne_true
    · rw [hcounted, Nat.zero_add]
      exact hbytes

/-- The loop over the threads goes on. -/
theorem Adding.succ (h : s.Adding o b i) (ht : t.val = i) {n : ℕ} {j : Bool}
    (hpassed : ∀ u : Fin S, ¬ s.main.passed u)
    (hended : j = true → (s.thread t).Ends o b t)
    (hactive : n + j.toNat = s.activeThreads) :
    ({ (s.add t).set t { s.thread t with bytesReceived := 0, joined := j } with
      activeThreads := n, main := .collecting (i + 1) } : Threaded S).Adding o b (i + 1) := by
  obtain ⟨hbytes, hcounted, hjoined⟩ := h.above t ht.ge
  have hbooks := h.books_add (m := .collecting (i + 1)) (n := n) (e := s.errorflag) (j := j) ht.ge
    (fun u hno => absurd hno (hpassed u))
  have hall : ∀ {p : Fin S → Thread S → Prop}, (∀ u, u ≠ t → p u (s.thread u)) →
      p t { s.thread t with bytesReceived := 0, joined := j } →
      ∀ u, p u (Function.update s.thread t
        { s.thread t with bytesReceived := 0, joined := j } u) :=
    fun {p} hrest hth => (Function.forall_update_iff s.thread p).mpr ⟨hth, hrest⟩
  refine ⟨hbooks, hall (fun u _ => h.sound u) (h.sound t),
    hall (p := fun _ th => th.reported = true) (fun u _ => h.reported u) (h.reported t),
    h.errorflag, hall (p := fun u th => th.joined = true → th.Ends o b u)
      (fun u _ => h.ended u) hended, ?_, ?_, ?_⟩
  · refine hall (p := fun u th => u.val < i + 1 → Function.update s.counted t
      (s.counted t + (s.thread t).bytesReceived) u = th.come o b u ∧ th.bytesReceived = 0) ?_ ?_
    · intro u hu hlt
      rw [Function.update_of_ne hu]
      refine h.below u ?_
      have hne : u.val ≠ t.val := fun heq => hu (Fin.ext heq)
      omega
    · intro _
      rw [Function.update_self, hcounted, Nat.zero_add]
      exact ⟨hbytes, rfl⟩
  · refine hall (p := fun u th => i + 1 ≤ u.val → th.bytesReceived = th.come o b u ∧
      Function.update s.counted t (s.counted t + (s.thread t).bytesReceived) u = 0 ∧
        th.joined = false) ?_ ?_
    · intro u hu hle
      rw [Function.update_of_ne hu]
      exact h.above u (by omega)
    · intro hle
      omega
  · have hsum := sum_update_add (fun _ (th : Thread S) => th.joined.toNat) s.thread t
      { s.thread t with bytesReceived := 0, joined := j }
    have hnow : turnout (fun u => (Function.update s.thread t
        { s.thread t with bytesReceived := 0, joined := j } u).joined) =
          turnout (fun u => (s.thread u).joined) + j.toNat := by
      rw [hjoined, Bool.toNat_false, Nat.add_zero] at hsum
      exact hsum
    have hold := h.active
    show n + turnout (fun u => (Function.update s.thread t
      { s.thread t with bytesReceived := 0, joined := j } u).joined) = S
    rw [hnow]
    omega

/-- The main thread comes to thread `t`. -/
theorem Adding.collectFrom (h : s.Adding o b i) (ht : t.val = i)
    (hpassed : ∀ u : Fin S, ¬ s.main.passed u) (hstep : s.collectFrom t = some s') :
    (s'.main = .collecting (i + 1) ∧ s'.Adding o b (i + 1)) ∨
      (s'.main = .changing ∧ s'.errorflag = true ∧ s'.Books o b ∧
        ∀ u, (s'.thread u).Sound o b u ∧ (s'.thread u).reported = true) := by
  obtain ⟨-, -, hjoined⟩ := h.above t ht.ge
  have hends := (h.sound t).ends (h.reported t)
  unfold Threaded.collectFrom at hstep
  dsimp only at hstep
  rw [hjoined] at hstep
  simp only [Bool.false_eq_true, if_false] at hstep
  split_ifs at hstep with hclean hexited herror hexited
  · obtain rfl := Option.some.inj hstep
    refine .inl ⟨by rw [ht], ?_⟩
    have hpos : 0 < s.activeThreads := by
      have hactive := h.active
      have hlt := turnout_lt_iff (p := fun t => (s.thread t).joined).mpr ⟨t, hjoined⟩
      rw [Fintype.card_fin] at hlt
      omega
    have hnext := h.succ (n := s.activeThreads - 1) (j := true) ht hpassed
      (fun _ => hends hclean) (by rw [Bool.toNat_true]; omega)
    rw [← ht] at hnext ⊢
    exact hnext
  · obtain rfl := Option.some.inj hstep
    refine .inr ⟨rfl, rfl, h.books_add ht.ge fun u hno => absurd hno (hpassed u), ?_⟩
    exact (Function.forall_update_iff s.thread fun u th => th.Sound o b u ∧ th.reported = true).mpr
      ⟨⟨h.sound t, h.reported t⟩, fun u _ => ⟨h.sound u, h.reported u⟩⟩
  · obtain rfl := Option.some.inj hstep
    refine .inl ⟨by rw [ht], ?_⟩
    have hnext := h.succ (n := s.activeThreads) (j := false) ht hpassed (fun hno => by cases hno)
      rfl
    rw [← ht] at hnext ⊢
    exact hnext

/-- Where the bytes are those of a whole buffer, every thread has all its packets. -/
theorem Adding.full (hfits : Fits S o) (h : s.Adding o b S)
    (hsize : s.bufIncrementer * o.packetSize = o.bufsize) (t : Fin S) :
    (s.thread t).come o b t = share o b t := by
  have hcome : ∀ u : Fin S, (s.thread u).come o b u ≤ share o b u := by
    intro u
    have hle := (h.books.has u).got_le
    rw [Thread.come]
    omega
  have hincrementer : s.bufIncrementer = o.bufNumElems := by
    rw [hfits.bufsize_eq] at hsize
    exact Nat.eq_of_mul_eq_mul_right o.packetSize_pos hsize
  have hsum : ∑ u, (s.thread u).come o b u = ∑ u : Fin S, share o b u := by
    rw [sum_share hfits, ← hincrementer, h.books.sum]
    exact Finset.sum_congr rfl fun u _ => (h.below u u.isLt).1.symm
  exact (Finset.sum_eq_sum_iff_of_le fun u _ => hcome u).mp hsum t (Finset.mem_univ t)

theorem Books.be (hfits : Fits S o) (h : s.Books o b) : s.received.be = some b := by
  rw [h.received]
  exact (dealt_after hfits b).be

/-- What is in the buffer, where the main thread has counted what has come. -/
theorem Books.content_eq (hfits : Fits S o) (h : s.Books o b) : s.content =
    filled (receiving S o.bufNumElems b) (taken o b) (fun t => (s.thread t).come o b t)
      s.bufIncrementer := by
  simp only [content, h.be hfits]
  exact h.written.map_range _

/-- The next buffer after a full one. -/
theorem Adding.change (hfits : Fits S o) (h : s.Adding o b S) (hgo : ¬ s.Breaks o) :
    (s.change o true b).Releasing o (b + 1) := by
  rw [Breaks, not_or, not_or, not_ne_iff] at hgo
  have hfull := h.full hfits hgo.2.2
  have hgot : ∀ t, (s.thread t).got = taken o (b + 1) t := by
    intro t
    have hcome := hfull t
    have hle := (h.books.has t).le_got
    rw [Thread.come] at hcome
    show _ = taken o b t + share o b t
    omega
  have hwaits : ∀ t, (s.thread t).Waits := fun t =>
    (h.sound t).waits (h.reported t) (hgot t)
  have hjoined : ∀ t, (s.thread t).joined = false := by
    intro t
    by_contra hno
    have hends := (h.ended t (by simpa using hno)).2
    exact hends.ne (hgot t)
  have hcount : s.bufIncrementer = (fullRound S o b).count := by
    rw [h.books.sum]
    exact Finset.sum_congr rfl fun u _ => (h.below u u.isLt).1.trans (hfull u)
  refine ⟨⟨?_, ?_, ?_, ?_, ?_, ?_, ?_⟩, hwaits, hgot, fun t => (h.below t t.isLt).2, hjoined, ?_,
    h.errorflag, rfl⟩
  · have hcontent := h.books.content_eq hfits
    rw [funext hfull, hcount] at hcontent
    show ({ s.received with buf := s.content } : Receiving _).changeBuffer o true b = _
    rw [hcontent, h.books.received]
    rfl
  · show (⟨s.bufData.endRemainder,
      Fin.ofNat S (subUint o.bufNumElems (S - s.bufData.endRemainder))⟩ : BufData S) = _
    rw [h.books.bufData]
    rfl
  · exact fun t => ⟨(hwaits t).stands, (hgot t).ge, by
      rw [show (s.change o true b).thread t = s.thread t from rfl, hgot t]
      exact Nat.le_add_right _ _⟩
  · exact fun t => ⟨fun _ => ⟨(h.below t t.isLt).2, rfl⟩, .inl rfl, fun _ =>
      .inl (h.below t t.isLt).2⟩
  · show 0 = ∑ t : Fin S, (0 : Fin S → ℕ) t
    simp
  · refine written_empty o (b + 1) (fun t => ?_) fun j => h.books.later (b + 1) j b.lt_succ_self
    show (s.thread t).got - taken o (b + 1) t = 0
    rw [hgot t, Nat.sub_self]
  · exact fun file j hfile => h.books.later file j (by omega)
  · have hactive := h.active
    rw [turnout_eq_zero hjoined, Nat.add_zero] at hactive
    exact hactive

/-- The threads are let go. -/
theorem Releasing.release (h : s.Releasing o b) : (s.release b).Turn o b := by
  have hthread : ∀ t, ∃ pos, (pos = .head ∨ pos = .locking) ∧ (s.release b).thread t =
      { s.thread t with pos := pos, buf := b, status := .running } := fun t =>
    (h.waits t).released b
  have hcome : ∀ t, ((s.release b).thread t).come o b t = (s.thread t).come o b t := by
    intro t
    obtain ⟨pos, -, heq⟩ := hthread t
    rw [heq]
    rfl
  have hbytes : ∀ t, ((s.release b).thread t).bytesReceived = 0 := by
    intro t
    obtain ⟨pos, -, heq⟩ := hthread t
    rw [heq]
    exact h.bytes t
  have hcounted : ∀ t, (s.release b).counted t = 0 := congrFun h.counted
  refine ⟨⟨h.books.received, h.books.bufData, fun t => ?_, fun t => ?_, h.books.sum, ?_,
    h.books.later⟩, fun t => ?_, fun t hclosed => ?_, fun t => ?_, h.active, h.errorflag,
    h.counted, ?_, fun hno => by cases hno⟩
  · obtain ⟨pos, hpos, heq⟩ := hthread t
    rw [heq]
    refine ⟨?_, (h.got t).ge, (h.got t).trans_le (Nat.le_add_right _ _)⟩
    obtain rfl | rfl := hpos <;> exact fun _ => ⟨h.got t, rfl⟩
  · exact ⟨fun _ => ⟨hbytes t, hcounted t⟩, .inl (hcounted t), fun _ => .inl (hbytes t)⟩
  · rw [funext hcome]
    exact h.books.written
  · obtain ⟨pos, hpos, heq⟩ := hthread t
    rw [heq]
    obtain rfl | rfl := hpos <;> exact .inl rfl
  · obtain ⟨pos, hpos, heq⟩ := hthread t
    rw [heq] at hclosed
    obtain rfl | rfl := hpos <;> cases hclosed
  · obtain ⟨pos, -, heq⟩ := hthread t
    rw [heq]
    exact h.joined t
  · refine (turnout_eq_zero fun t => ?_).symm
    obtain ⟨pos, hpos, heq⟩ := hthread t
    rw [heq]
    obtain rfl | rfl := hpos <;> rfl

/-- The rundown comes to thread `t`. -/
theorem Books.clear (h : s.Books o b) (hmain : s.main = .rundown t) :
    ({ (s.add t).set t { s.thread t with status := .cleared } with
      main := .rundown (t + 1) } : Threaded S).Books o b := by
  have hhas := h.has t
  have hadded := h.added t
  have hbefore : ¬ s.main.passed t := by
    rw [hmain]
    exact Nat.lt_irrefl _
  refine h.add (m := .rundown (t + 1)) (n := s.activeThreads) (e := s.errorflag) hhas.clear rfl
    ⟨fun hopen => ?_, ?_, fun hno => ?_⟩ fun u _ hlt => ?_
  · obtain ⟨hbytes, hcounted⟩ := hadded.fresh (Thread.isOpen_of_clear hopen)
    exact ⟨hbytes, by rw [hbytes, hcounted]⟩
  · obtain hbytes | ⟨hbytes, hcounted⟩ := hadded.bytes hbefore
    · rw [hbytes, Nat.add_zero]
      exact hadded.counted
    · rw [hcounted, Nat.zero_add]
      exact .inr hbytes
  · exact absurd (Nat.lt_succ_self t.val) hno
  · rw [hmain] at hlt
    exact Nat.lt_succ_of_lt hlt

/-- The rundown is over. -/
theorem Books.woken (h : s.Books o b) :
    ({ s with thread := fun t => (s.thread t).woken, main := .finishing } :
      Threaded S).Books o b := by
  have hcome : ∀ t : Fin S, (s.thread t).woken.come o b t = (s.thread t).come o b t := by
    intro t
    rw [Thread.come, Thread.woken_got, Thread.come]
  refine ⟨h.received, h.bufData, fun t => (h.has t).woken, fun t => ⟨?_, ?_, ?_⟩, h.sum, ?_,
    h.later⟩
  · show (s.thread t).woken.isOpen = true → _
    rw [(h.has t).isOpen_woken, Thread.woken_bytesReceived]
    exact (h.added t).fresh
  · show s.counted t = 0 ∨ s.counted t = (s.thread t).woken.come o b t
    rw [hcome]
    exact (h.added t).counted
  · exact fun hno => absurd trivial hno
  · show Written o b (fun t => (s.thread t).woken.come o b t) _
    rw [funext hcome]
    exact h.written

end Threaded

end VlbiStreamer.TcpStream
