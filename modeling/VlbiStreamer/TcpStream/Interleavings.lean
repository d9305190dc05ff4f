import VlbiStreamer.TcpStream.Barrier

/-!
# The interleavings of the receiving threads

Along every run of `Threaded.system` the main thread is in one of the phases of the barrier
(`inv_of_reachable`).  So whatever the threads do in whatever order, the main loop hands over
full buffers and a recording ends as `multistream` says it does (`refines_multistream`), and
as long as the main loop goes on nobody waits for a signal that was given
(`barrier_of_reachable`).
-/

namespace VlbiStreamer.TcpStream

open Library BufData

variable {S : ℕ} [NeZero S]

namespace Threaded

/-- The recording is over, and is what `multistream` makes of `b` full rounds and a stop. -/
def Settled (o : Opt) (s : Threaded S) : Prop :=
  ∃ b, ∃ stop : Stop S, (∀ t, stop.ready t ≤ share o b t) ∧
    multistreamReceive o true ((List.range b).map (fullRound S o)) stop = .returned s.received

/-- **The invariant**, by where the main thread is. -/
def Inv (o : Opt) (s : Threaded S) : Prop :=
  match s.main with
  | .top | .locking | .sleeping => ∃ b, s.Turn o b
  | .collecting i => ∃ b, s.Adding o b i
  | .changing => ∃ b, s.Books o b ∧
      (∀ t, (s.thread t).Sound o b t ∧ (s.thread t).reported = true) ∧
      (s.errorflag = true ∨ s.Adding o b S)
  | .releasing => ∃ b, s.Releasing o b
  | .rundown _ | .finishing => (∃ b, s.Books o b) ∨ s.received.be = none
  | .joining _ | .returned => s.Settled o
  | .broken => s.received.be = none

variable {o : Opt} {b i : ℕ} {t : Fin S} {s s' : Threaded S}

/-- What the threads have when the recording is stopped. -/
def stopped (o : Opt) (b : ℕ) (s : Threaded S) : Stop S where
  ready t := (s.thread t).come o b t
  reported t := decide (s.counted t ≠ 0)
  begun t := decide ((s.thread t).pos = .inRecv)
  late := false

theorem Books.come_le (h : s.Books o b) (t : Fin S) : (s.thread t).come o b t ≤ share o b t := by
  have hle := (h.has t).got_le
  rw [Thread.come]
  omega

theorem Books.stopped_count (h : s.Books o b) : (s.stopped o b).count = s.bufIncrementer := by
  rw [h.sum]
  refine Finset.sum_congr rfl fun t _ => ?_
  obtain hzero | hcome := (h.added t).counted
  · simp [stopped, hzero]
  · by_cases hzero : s.counted t = 0
    · simp [stopped, hzero]
    · simp [stopped, hzero, ← hcome]

theorem Books.stopped_inside (hfits : Fits S o) (h : s.Books o b) :
    (s.stopped o b).Inside o.bufNumElems (receiving S o.bufNumElems b) := by
  constructor
  · intro t m hm
    exact (lt_share_iff hfits b t m).mp (Nat.lt_of_lt_of_le hm (h.come_le t))
  · intro t hbegun
    have hstands := (h.has t).stands
    rw [Thread.Stands, of_decide_eq_true hbegun] at hstands
    refine (lt_share_iff hfits b t _).mp ?_
    show (s.thread t).come o b t < _
    rw [hstands.1.come]
    exact hstands.2

/-- The main thread ends the recording. -/
theorem Books.finish (hfits : Fits S o) (h : s.Books o b) {received : Receiving (Option ℕ)}
    (hfinish : Receiving.multistreamEpilogue o { s.received with buf := s.content } =
      .returned received) :
    ∃ b, ∃ stop : Stop S, (∀ t, stop.ready t ≤ share o b t) ∧
      multistreamReceive o true ((List.range b).map (fullRound S o)) stop = .returned received := by
  have hdealt := dealt_after (S := S) hfits b
  refine ⟨b, s.stopped o b, h.come_le, ?_⟩
  rw [multistreamReceive, if_pos rfl, ← List.append_nil (List.map _ _),
    multistream_fullRounds hfits, multistream]
  simp only [hdealt.cumul]
  rw [if_pos ⟨h.stopped_inside hfits, rfl⟩, h.stopped_count, ← hfinish, h.content_eq hfits,
    h.received]
  simp only [hdealt.cumul]
  rfl

theorem Books.stop (h : s.Books o b) : ({ s with running := false } : Threaded S).Books o b :=
  { h with }

theorem Turn.stop (h : s.Turn o b) : ({ s with running := false } : Threaded S).Turn o b :=
  { h with books := h.books.stop }

theorem Adding.stop (h : s.Adding o b i) :
    ({ s with running := false } : Threaded S).Adding o b i :=
  { h with books := h.books.stop }

/-- A thread does not hand over anything. -/
theorem received_thread {a : ThreadAction} (hstep : s.next o (.thread t a) = some s') :
    s'.received = s.received := by
  obtain ⟨th', -, -, rfl⟩ := exists_moves hstep
  exact affect_received t a s

/-- A thread only wakes the main thread. -/
theorem main_thread {a : ThreadAction} (hstep : s.next o (.thread t a) = some s') :
    s'.main = s.main ∨ (s.main = .sleeping ∧ s'.main = .locking) := by
  obtain ⟨th', -, -, rfl⟩ := exists_moves hstep
  show (s.affect t a).main = _ ∨ _ ∧ (s.affect t a).main = _
  by_cases ha : a = .report
  · subst ha
    show s.main.signalled = _ ∨ _ ∧ s.main.signalled = _
    cases s.main <;> simp [MainAt.signalled]
  · exact .inl (affect_main _ _ _ ha)

/-- A step of a thread keeps the invariant. -/
theorem Inv.thread {a : ThreadAction} (h : s.Inv o)
    (hstep : s.next o (.thread t a) = some s') : s'.Inv o := by
  unfold Inv at h ⊢
  obtain hmain | ⟨hbefore, hafter⟩ := main_thread hstep
  · rw [hmain]
    cases hs : s.main <;> simp only [hs] at h ⊢
    case top => exact h.imp fun b hturn => hturn.thread hstep
    case locking => exact h.imp fun b hturn => hturn.thread hstep
    case sleeping => exact h.imp fun b hturn => hturn.thread hstep
    case collecting i => exact h.imp fun b hadding => hadding.thread hstep
    case changing =>
      obtain ⟨b, hbooks, hall, hor⟩ := h
      refine ⟨b, hbooks.thread hstep, ?_, hor.imp (fun herror => ?_) fun hadding =>
        hadding.thread hstep⟩
      · obtain ⟨th', hmove, -, rfl⟩ := exists_moves hstep
        obtain ⟨hsound, hreported⟩ := hall t
        have hstays := (Thread.moves_of_reported hreported hmove (hsound.allFull hreported)).2.1
        rw [hbooks.bufData] at hmove
        exact forall_set (p := fun u th => th.Sound o b u ∧ th.reported = true) hall
          ⟨hsound.moves (hbooks.has t) hmove, hstays⟩
      · obtain ⟨th', -, -, rfl⟩ := exists_moves hstep
        exact (affect_errorflag t a s).trans herror
    case releasing => exact h.imp fun b hreleasing => hreleasing.thread hstep
    case rundown i =>
      exact h.imp (fun hbooks => hbooks.imp fun b hbooks => hbooks.thread hstep) fun hnone =>
        (congrArg Receiving.be (received_thread hstep)).trans hnone
    case finishing =>
      exact h.imp (fun hbooks => hbooks.imp fun b hbooks => hbooks.thread hstep) fun hnone =>
        (congrArg Receiving.be (received_thread hstep)).trans hnone
    case joining i => rwa [Settled, received_thread hstep]
    case returned => rwa [Settled, received_thread hstep]
    case broken => exact (congrArg Receiving.be (received_thread hstep)).trans h
  · rw [hafter]
    rw [hbefore] at h
    exact h.imp fun b hturn => hturn.thread hstep

/-- The event may be stopped at any time. -/
theorem Inv.stop (h : s.Inv o) : ({ s with running := false } : Threaded S).Inv o := by
  obtain ⟨thread, main, running, bufData, ready, active, mutex, errorflag, incrementer, counted,
    received, memory⟩ := s
  cases main
  case top => exact h.imp fun b hturn => hturn.stop
  case locking => exact h.imp fun b hturn => hturn.stop
  case sleeping => exact h.imp fun b hturn => hturn.stop
  case collecting i => exact h.imp fun b hadding => hadding.stop
  case changing =>
    exact h.imp fun b hor => ⟨hor.1.stop, hor.2.1, hor.2.2.imp_right fun hadding => hadding.stop⟩
  case releasing =>
    exact h.imp fun b hreleasing => { hreleasing with books := hreleasing.books.stop }
  case rundown i => exact h.imp_left fun hbooks => hbooks.imp fun b hbooks => hbooks.stop
  case finishing => exact h.imp_left fun hbooks => hbooks.imp fun b hbooks => hbooks.stop
  case joining i => exact h
  case returned => exact h
  case broken => exact h

/-- A step keeps the invariant. -/
theorem Inv.step {a : Action S} (hfits : Fits S o) (h : s.Inv o)
    (hstep : s.next o a = some s') : s'.Inv o := by
  have hinv := h
  unfold Inv at h
  cases a with
  | thread t a => exact hinv.thread hstep
  | stop =>
      obtain rfl := Option.some.inj hstep
      exact hinv.stop
  | top =>
      simp only [next, Option.ite_some_none_eq_some] at hstep
      obtain ⟨hmain, rfl⟩ := hstep
      rw [hmain] at h
      obtain ⟨b, hturn⟩ := h
      have hpassed : ∀ t : Fin S, ¬ s.main.passed t := by
        intro t
        rw [hmain]
        exact id
      unfold Inv
      split_ifs
      · exact ⟨b, { hturn with
          books := hturn.books.main fun t hno => absurd hno (hpassed t)
          awake := fun hno => by cases hno }⟩
      · exact .inl ⟨b, hturn.books.main fun t hno => absurd hno (hpassed t)⟩
  | lock =>
      simp only [next, Option.ite_some_none_eq_some] at hstep
      obtain ⟨⟨hmain, -⟩, rfl⟩ := hstep
      rw [hmain] at h
      obtain ⟨b, hturn⟩ := h
      have hpassed : ∀ t : Fin S, ¬ s.main.passed t := by
        intro t
        rw [hmain]
        exact id
      unfold Inv
      split_ifs with hcount
      · refine ⟨b, { hturn with
          books := hturn.books.main fun t hno => absurd hno (hpassed t)
          awake := fun _ => ?_ }⟩
        rw [hturn.count, hturn.active] at hcount
        refine turnout_lt_iff.mp ?_
        rwa [Fintype.card_fin]
      · exact ⟨b, hturn.adding hcount hpassed⟩
  | wake =>
      simp only [next, Option.ite_some_none_eq_some] at hstep
      obtain ⟨hmain, rfl⟩ := hstep
      rw [hmain] at h
      obtain ⟨b, hturn⟩ := h
      refine ⟨b, { hturn with
        books := hturn.books.main fun t hno => ?_
        awake := fun hno => by cases hno }⟩
      rw [hmain] at hno
      exact hno
  | collect =>
      simp only [next] at hstep
      split at hstep
      next i hmain =>
        rw [hmain] at h
        obtain ⟨b, hadding⟩ := h
        have hpassed : ∀ t : Fin S, ¬ s.main.passed t := by
          intro t
          rw [hmain]
          exact id
        split_ifs at hstep with hi
        · unfold Inv
          obtain ⟨hmain', hnext⟩ | ⟨hmain', herror, hbooks, hall⟩ :=
            hadding.collectFrom (t := ⟨i, hi⟩) rfl hpassed hstep
          · rw [hmain']
            exact ⟨b, hnext⟩
          · rw [hmain']
            exact ⟨b, hbooks, hall, .inl herror⟩
        · obtain rfl := Option.some.inj hstep
          refine ⟨b, hadding.books.main fun t hno => absurd hno (hpassed t),
            fun t => ⟨hadding.sound t, hadding.reported t⟩, .inr ?_⟩
          exact { hadding with
            books := hadding.books.main fun t hno => absurd hno (hpassed t)
            below := fun t _ => hadding.below t (by omega)
            above := fun t hle => absurd t.isLt (by omega) }
      next => cases hstep
  | change free =>
      simp only [next] at hstep
      split_ifs at hstep with hmain hbreaks
      · obtain rfl := Option.some.inj hstep
        rw [hmain] at h
        obtain ⟨b, hbooks, -⟩ := h
        refine .inl ⟨b, hbooks.main fun t hno => ?_⟩
        rw [hmain] at hno
        cases hno
      · rw [hmain] at h
        obtain ⟨b, hbooks, -, hor⟩ := h
        have hadding := hor.resolve_left fun herror => hbreaks (.inl herror)
        rw [hbooks.be hfits] at hstep
        obtain rfl := Option.some.inj hstep
        cases free with
        | true => exact ⟨b + 1, hadding.change hfits hbreaks⟩
        | false => exact .inr rfl
  | release =>
      simp only [next] at hstep
      split_ifs at hstep with hmain
      rw [hmain] at h
      obtain ⟨b, hreleasing⟩ := h
      rw [hreleasing.books.be hfits] at hstep
      obtain rfl := Option.some.inj hstep
      exact ⟨b, hreleasing.release⟩
  | rundown =>
      simp only [next] at hstep
      split at hstep
      next i hmain =>
        rw [hmain] at h
        split_ifs at hstep with hi
        · obtain rfl := Option.some.inj hstep
          exact h.imp_left fun hbooks => hbooks.imp fun b hbooks =>
            hbooks.clear (t := ⟨i, hi⟩) hmain
        · obtain rfl := Option.some.inj hstep
          exact h.imp_left fun hbooks => hbooks.imp fun b hbooks => hbooks.woken
      next => cases hstep
  | finish =>
      simp only [next] at hstep
      split_ifs at hstep with hmain
      rw [hmain] at h
      split at hstep
      next received hfinish =>
        obtain rfl := Option.some.inj hstep
        obtain ⟨b, hbooks⟩ | hnone := h
        · exact hbooks.finish hfits hfinish
        · simp [Receiving.multistreamEpilogue, hnone] at hfinish
      next hfinish =>
        obtain rfl := Option.some.inj hstep
        obtain ⟨b, hbooks⟩ | hnone := h
        · simp only [Receiving.multistreamEpilogue, hbooks.be hfits] at hfinish
          split at hfinish <;> cases hfinish
        · exact hnone
  | join =>
      simp only [next] at hstep
      split at hstep
      next i hmain =>
        rw [hmain] at h
        split_ifs at hstep
        · obtain rfl := Option.some.inj hstep
          exact h
        · obtain rfl := Option.some.inj hstep
          exact h
      next => cases hstep

/-- The recording begins. -/
theorem started_turn : (started o : Threaded S).Turn o 0 := by
  refine ⟨⟨rfl, rfl, fun t => ⟨fun _ => ⟨rfl, rfl⟩, le_refl _, Nat.le_add_right _ _⟩,
    fun t => ⟨fun _ => ⟨rfl, rfl⟩, .inl rfl, fun _ => .inl rfl⟩, ?_, ?_, fun _ _ _ => rfl⟩,
    fun t => .inl rfl, fun t hno => ?_, fun t => rfl, rfl, rfl, rfl, ?_, fun hno => ?_⟩
  · show 0 = ∑ t : Fin S, (0 : Fin S → ℕ) t
    simp
  · exact written_empty o 0 (fun t => rfl) fun j => rfl
  · cases hno
  · exact (turnout_eq_zero fun t => rfl).symm
  · cases hno

theorem inv_of_reachable (hfits : Fits S o) (h : (system (S := S) o).Reachable s) : s.Inv o := by
  refine h.invariant ?_ fun s a s' hinv hstep => hinv.step hfits hstep
  rintro _ rfl
  exact ⟨0, started_turn⟩

/-! ## What the barrier is for -/

end Threaded

/-- The main loop goes on. -/
def MainAt.inLoop : MainAt → Bool
  | .top | .locking | .sleeping | .collecting _ | .changing | .releasing => true
  | _ => false

/-- The main thread counts what is in the buffer, or changes it. -/
def MainAt.usesBuffer : MainAt → Bool
  | .collecting _ | .changing | .releasing => true
  | _ => false

namespace Threaded

variable {o : Opt} {b i : ℕ} {t : Fin S} {s s' : Threaded S}

/-- What the barrier is for. -/
structure Orderly (o : Opt) (s : Threaded S) : Prop where
  /-- No packet comes while the main thread uses the buffer. -/
  still : s.main.usesBuffer = true → ∀ t, (s.thread t).isOpen = false
  /-- A packet comes into the buffer that is held, inside it, and where no other comes. -/
  inside : ∀ t, (s.thread t).pos = .inRecv →
    s.received.be = some (s.thread t).spot ∧
      (s.thread t).bd.slot t (s.thread t).ready < o.bufNumElems ∧
      ∀ u, (s.thread u).pos = .inRecv →
        (s.thread u).bd.slot u (s.thread u).ready = (s.thread t).bd.slot t (s.thread t).ready →
          u = t
  /-- The main thread sleeps only for a thread that goes on and reports. -/
  mainAwake : s.main = .sleeping → ∃ t, (s.thread t).pos ≠ .sleeping ∧
    (s.thread t).pos ≠ .exited ∧ (s.thread t).reported = false
  /-- A thread sleeps only after a buffer that it has filled. -/
  threadAwake : ∀ t, (s.thread t).pos = .sleeping → (s.thread t).reported = true ∧
    ∃ b, (s.thread t).got = taken o b t

theorem Books.inside (hfits : Fits S o) (h : s.Books o b) (hpos : (s.thread t).pos = .inRecv) :
    s.received.be = some (s.thread t).spot ∧
      (s.thread t).bd.slot t (s.thread t).ready < o.bufNumElems ∧
      ∀ u, (s.thread u).pos = .inRecv →
        (s.thread u).bd.slot u (s.thread u).ready = (s.thread t).bd.slot t (s.thread t).ready →
          u = t := by
  have hlooks : ∀ u, (s.thread u).pos = .inRecv →
      (s.thread u).Looks o b u ∧ (s.thread u).ready < share o b u := by
    intro u hu
    have hstands := (h.has u).stands
    rwa [Thread.Stands, hu] at hstands
  obtain ⟨⟨hspot, hbd, -⟩, hready⟩ := hlooks t hpos
  refine ⟨by rw [hspot, h.be hfits], ?_, fun u hu heq => ?_⟩
  · rw [hbd]
    exact (lt_share_iff hfits b t _).mp hready
  · rw [(hlooks u hu).1.bd, hbd] at heq
    exact eq_of_slot_eq heq

/-- A thread that sleeps in a round. -/
theorem sleeping_of_sound (h : (s.thread t).Sound o b t) (hpos : (s.thread t).pos = .sleeping) :
    (s.thread t).reported = true ∧ ∃ b, (s.thread t).got = taken o b t := by
  rw [Thread.Sound, hpos] at h
  refine ⟨?_, b + 1, h.2⟩
  simp [Thread.reported, hpos, h.1, ThreadStatus.full, ThreadStatus.running]

theorem Turn.orderly (hfits : Fits S o) (h : s.Turn o b) (hmain : s.main.usesBuffer = false) :
    s.Orderly o where
  still := fun huses => absurd (huses.symm.trans hmain) (by simp)
  inside := fun _ hpos => h.books.inside hfits hpos
  mainAwake := by
    intro hsleeping
    obtain ⟨t, ht⟩ := h.awake hsleeping
    have hsound := h.sound t
    refine ⟨t, fun hpos => ?_, fun hpos => ?_, ht⟩
    · exact absurd ((sleeping_of_sound hsound hpos).1.symm.trans ht) (by simp)
    · rw [Thread.Sound, hpos] at hsound
      obtain hst | hst := hsound.1 <;>
        simp [Thread.reported, hpos, hst, ThreadStatus.closed, ThreadStatus.failed,
          ThreadStatus.running] at ht
  threadAwake := fun t hpos => sleeping_of_sound (h.sound t) hpos

/-- Once all have reported. -/
theorem orderly_of_reported (hfits : Fits S o) (hbooks : s.Books o b)
    (hall : ∀ t, (s.thread t).Sound o b t ∧ (s.thread t).reported = true)
    (hmain : s.main ≠ .sleeping) : s.Orderly o where
  still := fun _ t => (hall t).1.isOpen_of_reported (hall t).2
  inside := fun _ hpos => hbooks.inside hfits hpos
  mainAwake := fun hno => absurd hno hmain
  threadAwake := fun t hpos => sleeping_of_sound (hall t).1 hpos

theorem Releasing.orderly (hfits : Fits S o) (h : s.Releasing o b)
    (hmain : s.main ≠ .sleeping) : s.Orderly o where
  still := fun _ t => (h.waits t).isOpen
  inside := fun _ hpos => h.books.inside hfits hpos
  mainAwake := fun hno => absurd hno hmain
  threadAwake := by
    intro t hpos
    refine ⟨?_, b, h.got t⟩
    simp [Thread.reported, hpos, (h.waits t).status, ThreadStatus.full, ThreadStatus.running]

/-- **The barrier holds** in every interleaving, as long as the main loop goes on. -/
theorem barrier_of_reachable (hfits : Fits S o) (h : (system (S := S) o).Reachable s)
    (hloop : s.main.inLoop = true) : s.Orderly o := by
  have hinv := inv_of_reachable hfits h
  unfold Inv at hinv
  cases hmain : s.main <;> simp only [hmain] at hinv
  case top => exact hinv.elim fun b hturn => hturn.orderly hfits (by rw [hmain]; rfl)
  case locking => exact hinv.elim fun b hturn => hturn.orderly hfits (by rw [hmain]; rfl)
  case sleeping => exact hinv.elim fun b hturn => hturn.orderly hfits (by rw [hmain]; rfl)
  case collecting i =>
    obtain ⟨b, hadding⟩ := hinv
    exact orderly_of_reported hfits hadding.books
      (fun t => ⟨hadding.sound t, hadding.reported t⟩) (by simp [hmain])
  case changing =>
    obtain ⟨b, hbooks, hall, -⟩ := hinv
    exact orderly_of_reported hfits hbooks hall (by simp [hmain])
  case releasing =>
    exact hinv.elim fun b hreleasing => hreleasing.orderly hfits (by simp [hmain])
  all_goals
    rw [hmain] at hloop
    cases hloop

theorem fits_twoPackets : Fits 2 twoPackets := ⟨by decide, by decide, by decide⟩

/-- The main thread sleeps while a packet comes. -/
theorem barrier_of_reachable_sleeping : ∃ s : Threaded 2, (system twoPackets).Reachable s ∧
    s.main = .sleeping ∧ (s.thread 0).pos = .inRecv ∧ s.Orderly twoPackets := by
  have hview : (System.runFrom (next twoPackets) (started twoPackets : Threaded 2)
      ([.head, .lock, .begin, .test].map (.thread 0) ++ [.top, .lock])).map
        (fun s => (s.main, (s.thread 0).pos)) = some (.sleeping, .inRecv) := by
    decide +kernel
  obtain ⟨s, hrun, hs⟩ := Option.map_eq_some_iff.mp hview
  have hmain : s.main = .sleeping := congrArg Prod.fst hs
  have hreach : (system twoPackets).Reachable s := (System.Reachable.init rfl).runFrom hrun
  exact ⟨s, hreach, hmain, congrArg Prod.snd hs,
    barrier_of_reachable fits_twoPackets hreach (by rw [hmain]; rfl)⟩

/-- **The threads do what `multistream` says**, in every interleaving: the main loop has handed
over full buffers, and a recording that is over is that of full rounds and a stop. -/
theorem refines_multistream (hfits : Fits S o) (h : (system (S := S) o).Reachable s) :
    (s.main.inLoop = true → ∃ b, Dealt o b (taken (S := S) o b) s.received) ∧
      ((∃ i, s.main = .joining i) ∨ s.main = .returned → s.Settled o) := by
  have hinv := inv_of_reachable hfits h
  have hbooks : (∃ b, s.Books o b) → ∃ b, Dealt o b (taken (S := S) o b) s.received := by
    rintro ⟨b, hbooks⟩
    exact ⟨b, hbooks.received ▸ dealt_after hfits b⟩
  unfold Inv at hinv
  constructor
  · intro hloop
    cases hmain : s.main <;> simp only [hmain] at hinv
    case top => exact hbooks (hinv.imp fun b hturn => hturn.books)
    case locking => exact hbooks (hinv.imp fun b hturn => hturn.books)
    case sleeping => exact hbooks (hinv.imp fun b hturn => hturn.books)
    case collecting i => exact hbooks (hinv.imp fun b hadding => hadding.books)
    case changing => exact hbooks (hinv.imp fun b hchanging => hchanging.1)
    case releasing => exact hbooks (hinv.imp fun b hreleasing => hreleasing.books)
    all_goals
      rw [hmain] at hloop
      cases hloop
  · rintro (⟨i, hmain⟩ | hmain)
    · rwa [hmain] at hinv
    · rwa [hmain] at hinv

/-- A thread brings its packet of a buffer of `S` packets. -/
def onePacket (t : Fin S) : List (Action S) :=
  ([.head, .lock, .begin, .test, .packet, .test, .store, .lockMain, .report] :
    List ThreadAction).map (.thread t)

/-- Two threads fill a buffer, and the event is stopped. -/
def oneBuffer : List (Action 2) :=
  (List.finRange 2).flatMap onePacket ++
    [.top, .lock, .collect, .collect, .collect, .change true, .release, .stop, .top, .rundown,
      .rundown, .rundown, .finish]

theorem refines_multistream_oneBuffer : ∃ s : Threaded 2, (system twoPackets).Reachable s ∧
    s.main = .joining 0 ∧ s.received.handed = [(0, [some 0, some 1])] ∧ s.Settled twoPackets := by
  have hview : (System.runFrom (next twoPackets) (started twoPackets) oneBuffer).map
      (fun s => (s.main, s.received.handed)) = some (.joining 0, [(0, [some 0, some 1])]) := by
    decide +kernel
  obtain ⟨s, hrun, hs⟩ := Option.map_eq_some_iff.mp hview
  have hmain : s.main = .joining 0 := congrArg Prod.fst hs
  have hreach : (system twoPackets).Reachable s := (System.Reachable.init rfl).runFrom hrun
  exact ⟨s, hreach, hmain, congrArg Prod.snd hs,
    (refines_multistream fits_twoPackets hreach).2 (.inl ⟨0, hmain⟩)⟩

end Threaded

end VlbiStreamer.TcpStream
