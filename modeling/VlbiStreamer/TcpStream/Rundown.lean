import VlbiStreamer.Library.Variant
import VlbiStreamer.TcpStream.Interleavings

/-!
# The rundown of the receiving threads

The rundown clears the flags of every thread, closes its stream and wakes it, and
`tcp_preloop` joins the threads.  It clears the flags under `recv_mutex`, and a thread sets
`THREADSTATUS_ALL_FULL` under `mainthread_mutex`: one that has read its flags before they
are cleared, and writes them back afterwards, is `Lost`, for it sleeps until it is woken to
go on.  `returns_iff` says that this is the only way in which the threads are not joined, and
`exists_lost` that it happens.
-/

namespace VlbiStreamer.TcpStream

open Library BufData

variable {S : ℕ} [NeZero S]

/-! ## One thread -/

namespace Thread

/-- A thread whose flags were cleared: what has come back of them is that it has all its
packets. -/
structure Winds (th : Thread S) : Prop where
  kept : th.status.keepRunning = true → th.status.allFull = true ∧
    (th.pos = .head ∨ th.pos = .locking ∨ th.pos = .sleeping)
  waits : th.pos = .locking ∨ th.pos = .sleeping →
    th.status.keepRunning = true ∨ th.status.allFull = false

/-- The broadcast was for this thread. -/
structure Called (th : Thread S) : Prop extends th.Winds where
  asleep : th.pos = .sleeping → th.status.keepRunning = true

/-- The flags were read before they were cleared, and are or will be written back. -/
def Lost (th : Thread S) : Prop :=
  th.status.keepRunning = true ∨
    ∃ st : ThreadStatus, th.pos = .counting (some st) ∧ st.keepRunning = true

variable {o : Opt} {r : BufData S} {t : Fin S} {th th' : Thread S} {a : ThreadAction}

section Moves

omit [NeZero S]

/-- Elsewhere the flags are cleared. -/
theorem Winds.cleared (h : th.Winds) (hhead : th.pos ≠ .head) (hlocking : th.pos ≠ .locking)
    (hsleeping : th.pos ≠ .sleeping) : th.status.keepRunning = false := by
  by_contra hkeep
  obtain ⟨-, hpos⟩ := h.kept (by simpa using hkeep)
  simp [hhead, hlocking, hsleeping] at hpos

/-- A thread whose flags are cleared stays so. -/
theorem winds_of_cleared (hkeep : th.status.keepRunning = false) (hlocking : th.pos ≠ .locking)
    (hsleeping : th.pos ≠ .sleeping) : th.Winds :=
  ⟨fun hno => absurd (hno.symm.trans hkeep) (by simp), fun hpos => by
    simp [hlocking, hsleeping] at hpos⟩

theorem Winds.moves (h : th.Winds) (hmove : Moves o r t th a th') : th'.Winds := by
  cases hmove with
  | headOn hpos hkeep => exact ⟨fun _ => ⟨(h.kept hkeep).1, by simp⟩, fun _ => .inl hkeep⟩
  | headOff hpos hkeep => exact winds_of_cleared hkeep (by simp) (by simp)
  | lockFull hpos hfull =>
      have hkeep := (h.waits (.inl hpos)).resolve_right (by simp [hfull])
      exact ⟨fun _ => ⟨hfull, by simp⟩, fun _ => .inl hkeep⟩
  | lockOn hpos hfull hkeep => exact absurd ((h.kept hkeep).1.symm.trans hfull) (by simp)
  | lockOff hpos hfull hkeep => exact winds_of_cleared hkeep (by simp) (by simp)
  | wake hpos =>
      refine ⟨fun hkeep => ⟨(h.kept hkeep).1, by simp⟩, fun _ => h.waits (.inr hpos)⟩
  | begin hpos =>
      exact winds_of_cleared (h.cleared (by simp [hpos]) (by simp [hpos]) (by simp [hpos]))
        (by simp) (by simp)
  | testMore hpos hready hkeep =>
      have hcleared := h.cleared (by simp [hpos]) (by simp [hpos]) (by simp [hpos])
      exact absurd (hkeep.symm.trans hcleared) (by simp)
  | testDone hpos hdone =>
      exact winds_of_cleared (h.cleared (by simp [hpos]) (by simp [hpos]) (by simp [hpos]))
        (by simp) (by simp)
  | packet hpos =>
      exact winds_of_cleared (h.cleared (by simp [hpos]) (by simp [hpos]) (by simp [hpos]))
        (by simp) (by simp)
  | close hpos => exact winds_of_cleared rfl (by simp) (by simp)
  | fail hpos => exact winds_of_cleared rfl (by simp) (by simp)
  | store hpos =>
      exact winds_of_cleared (h.cleared (by simp [hpos]) (by simp [hpos]) (by simp [hpos]))
        (by simp) (by simp)
  | lockMainFull hpos hready =>
      exact winds_of_cleared (h.cleared (by simp [hpos]) (by simp [hpos]) (by simp [hpos]))
        (by simp) (by simp)
  | lockMainRest hpos hready =>
      exact winds_of_cleared (h.cleared (by simp [hpos]) (by simp [hpos]) (by simp [hpos]))
        (by simp) (by simp)
  | reportFull hpos => exact ⟨fun _ => ⟨rfl, .inl rfl⟩, by simp⟩
  | reportRest hpos =>
      exact winds_of_cleared (h.cleared (by simp [hpos]) (by simp [hpos]) (by simp [hpos]))
        (by simp) (by simp)

theorem Called.moves (h : th.Called) (hmove : Moves o r t th a th') : th'.Called := by
  refine ⟨h.toWinds.moves hmove, ?_⟩
  cases hmove with
  | lockFull hpos hfull => exact fun _ => (h.waits (.inl hpos)).resolve_right (by simp [hfull])
  | _ => exact fun hno => by cases hno

/-- The rundown clears the flags. -/
theorem winds_of_clear : ({ th with status := .cleared } : Thread S).Winds :=
  ⟨by simp [ThreadStatus.cleared], fun _ => .inr rfl⟩

/-- The rundown wakes the thread. -/
theorem Winds.woken (h : th.Winds) : th.woken.Called := by
  unfold Thread.woken
  split
  next hpos =>
    exact ⟨⟨fun hkeep => ⟨(h.kept hkeep).1, by simp⟩, fun _ => h.waits (.inr hpos)⟩,
      fun hno => by cases hno⟩
  next hpos => exact ⟨h, fun hno => absurd hno hpos⟩

/-- **A thread that is lost stays so.** -/
theorem Lost.moves (h : th.Lost) (hwinds : th.Winds) (hmove : Moves o r t th a th') :
    th'.Lost := by
  have hcleared : th.pos ≠ .head → th.pos ≠ .locking → th.pos ≠ .sleeping →
      ∃ st : ThreadStatus, th.pos = .counting (some st) ∧ st.keepRunning = true :=
    fun hhead hlocking hsleeping =>
      h.resolve_left (by simp [hwinds.cleared hhead hlocking hsleeping])
  have hkept : (∀ seen, th.pos ≠ .counting seen) → th.status.keepRunning = true := fun hpos =>
    h.resolve_right fun ⟨st, hst, _⟩ => hpos _ hst
  cases hmove with
  | headOn hpos hkeep => exact .inl hkeep
  | headOff hpos hkeep =>
      have hyes := hkept (by simp [hpos])
      exact absurd (hyes.symm.trans hkeep) (by simp)
  | lockFull hpos hfull => exact .inl (hkept (by simp [hpos]))
  | lockOn hpos hfull hkeep => exact .inl hkeep
  | lockOff hpos hfull hkeep =>
      have hyes := hkept (by simp [hpos])
      exact absurd (hyes.symm.trans hkeep) (by simp)
  | wake hpos => exact .inl (hkept (by simp [hpos]))
  | reportFull hpos =>
      obtain ⟨st, hst, hkeep⟩ := hcleared (by simp [hpos]) (by simp [hpos]) (by simp [hpos])
      rw [hpos] at hst
      cases hst
      exact .inl hkeep
  | reportRest hpos =>
      obtain ⟨st, hst, -⟩ := hcleared (by simp [hpos]) (by simp [hpos]) (by simp [hpos])
      rw [hpos] at hst
      cases hst
  | _ =>
      rename_i hpos
      obtain ⟨st, hst, -⟩ := hcleared (by simp_all) (by simp_all) (by simp_all)
      simp_all

/-- It never exits. -/
theorem Lost.not_exited (h : th.Lost) (hwinds : th.Winds) : th.pos ≠ .exited := by
  intro hpos
  obtain hkeep | ⟨st, hst, -⟩ := h
  · have hcleared := hwinds.cleared (by simp [hpos]) (by simp [hpos]) (by simp [hpos])
    exact absurd (hkeep.symm.trans hcleared) (by simp)
  · rw [hpos] at hst
    cases hst

/-- How many steps the thread is from its exit. -/
def rank (th : Thread S) : ℕ :=
  match th.pos with
  | .starting | .inRecv => 7
  | .receiving => 6
  | .storing => 5
  | .reporting => 4
  | .counting _ => 3
  | .head | .locking => 2
  | .sleeping => 1
  | .exited => 0

theorem cleared_of_not_lost (h : ¬ th.Lost) : th.status.keepRunning = false := by
  by_contra hno
  exact h (.inl (by simpa using hno))

/-- A thread that is not lost comes nearer to its exit, and is not lost then. -/
theorem Called.rank_lt (h : th.Called) (hlost : ¬ th.Lost) (hmove : Moves o r t th a th') :
    th'.rank < th.rank ∧ ¬ th'.Lost := by
  have hcleared := cleared_of_not_lost hlost
  have hstays : th'.status.keepRunning = false → (∀ seen, th'.pos ≠ .counting seen) →
      ¬ th'.Lost := by
    rintro hkeep hpos (hno | ⟨st, hst, -⟩)
    · exact absurd (hno.symm.trans hkeep) (by simp)
    · exact hpos _ hst
  cases hmove with
  | headOn hpos hkeep => exact absurd (hkeep.symm.trans hcleared) (by simp)
  | lockFull hpos hfull =>
      have hkeep := (h.waits (.inl hpos)).resolve_right (by simp [hfull])
      exact absurd (hkeep.symm.trans hcleared) (by simp)
  | lockOn hpos hfull hkeep => exact absurd (hkeep.symm.trans hcleared) (by simp)
  | wake hpos => exact absurd ((h.asleep hpos).symm.trans hcleared) (by simp)
  | testMore hpos hready hkeep => exact absurd (hkeep.symm.trans hcleared) (by simp)
  | lockMainFull hpos hready =>
      refine ⟨by simp [rank, hpos], ?_⟩
      rintro (hno | ⟨st, hst, hno⟩)
      · exact absurd (hno.symm.trans hcleared) (by simp)
      · cases hst
        exact absurd (hno.symm.trans hcleared) (by simp)
  | lockMainRest hpos hready =>
      refine ⟨by simp [rank, hpos], ?_⟩
      rintro (hno | ⟨st, hst, -⟩)
      · exact absurd (hno.symm.trans hcleared) (by simp)
      · cases hst
  | @reportFull st hpos =>
      refine ⟨by simp [rank, hpos], hstays ?_ (by simp)⟩
      by_contra hno
      exact hlost (.inr ⟨st, hpos, by simpa [ThreadStatus.full] using hno⟩)
  | close hpos => exact ⟨by simp [rank, hpos], hstays rfl (by simp)⟩
  | fail hpos => exact ⟨by simp [rank, hpos], hstays rfl (by simp)⟩
  | _ => exact ⟨by simp_all [rank], hstays hcleared (by simp)⟩

end Moves

end Thread

/-! ## The rundown -/

namespace Threaded

variable {o : Opt} {t : Fin S} {s s' : Threaded S} {a : Action S}

/-- What the main thread has brought about in the rundown. -/
def Wound (s : Threaded S) : Prop :=
  match s.main with
  | .rundown i => ∀ t : Fin S, t < i → (s.thread t).Winds
  | .finishing => ∀ t, (s.thread t).Called
  | .joining i =>
      i ≤ S ∧ ∀ t : Fin S, (s.thread t).Called ∧ (t < i → (s.thread t).pos = .exited)
  | .returned => ∀ t, (s.thread t).pos = .exited
  | _ => True

/-- **The invariant of the threads**, whatever is received. -/
structure Threading (s : Threaded S) : Prop where
  /-- The thread that holds `mainthread_mutex` is in it. -/
  holder : ∀ t, s.mainthreadMutex = some t → ∃ seen, (s.thread t).pos = .counting seen
  /-- Only threads that have exited are joined. -/
  joined : ∀ t, (s.thread t).joined = true → (s.thread t).pos = .exited
  wound : s.Wound

/-- A step of the main thread moves a thread only if it wakes it, and joins it only if it has
exited. -/
theorem main_step (hstep : s.next o a = some s') (ha : ∀ t b, a ≠ .thread t b) :
    s'.mainthreadMutex = s.mainthreadMutex ∧ ∀ t,
      ((s'.thread t).pos = (s.thread t).pos ∨
        ((s.thread t).pos = .sleeping ∧ (s'.thread t).pos = .locking)) ∧
      ((s'.thread t).joined = true → (s.thread t).joined = true ∨ (s.thread t).pos = .exited) := by
  have hwoken : ∀ th : Thread S, th.woken.pos = th.pos ∨
      (th.pos = .sleeping ∧ th.woken.pos = .locking) := by
    intro th
    unfold Thread.woken
    split
    next hpos => exact .inr ⟨hpos, rfl⟩
    next => exact .inl rfl
  have hjoined : ∀ th : Thread S, th.woken.joined = th.joined := by
    intro th
    unfold Thread.woken
    split <;> rfl
  have hset : ∀ (u : Fin S) (th : Thread S), th.pos = (s.thread u).pos →
      (th.joined = true → (s.thread u).joined = true ∨ (s.thread u).pos = .exited) →
      ∀ t, ((Function.update s.thread u th t).pos = (s.thread t).pos ∨
          ((s.thread t).pos = .sleeping ∧ (Function.update s.thread u th t).pos = .locking)) ∧
        ((Function.update s.thread u th t).joined = true →
          (s.thread t).joined = true ∨ (s.thread t).pos = .exited) := by
    intro u th hpos hth
    refine (Function.forall_update_iff s.thread fun t th' => (th'.pos = (s.thread t).pos ∨
      ((s.thread t).pos = .sleeping ∧ th'.pos = .locking)) ∧ (th'.joined = true →
        (s.thread t).joined = true ∨ (s.thread t).pos = .exited)).mpr ⟨⟨.inl hpos, hth⟩, ?_⟩
    exact fun t _ => ⟨.inl rfl, .inl⟩
  cases a with
  | thread t b => exact absurd rfl (ha t b)
  | stop =>
      obtain rfl := Option.some.inj hstep
      exact ⟨rfl, fun t => ⟨.inl rfl, .inl⟩⟩
  | top =>
      simp only [next, Option.ite_some_none_eq_some] at hstep
      obtain ⟨-, rfl⟩ := hstep
      exact ⟨rfl, fun t => ⟨.inl rfl, .inl⟩⟩
  | lock =>
      simp only [next, Option.ite_some_none_eq_some] at hstep
      obtain ⟨-, rfl⟩ := hstep
      exact ⟨rfl, fun t => ⟨.inl rfl, .inl⟩⟩
  | wake =>
      simp only [next, Option.ite_some_none_eq_some] at hstep
      obtain ⟨-, rfl⟩ := hstep
      exact ⟨rfl, fun t => ⟨.inl rfl, .inl⟩⟩
  | collect =>
      simp only [next] at hstep
      split at hstep
      next i hmain =>
        split_ifs at hstep with hi
        · unfold collectFrom at hstep
          dsimp only at hstep
          split_ifs at hstep with hclean hj hexited herror hj hexited
          all_goals obtain rfl := Option.some.inj hstep
          · exact ⟨rfl, fun t => ⟨.inl rfl, .inl⟩⟩
          · exact ⟨rfl, hset ⟨i, hi⟩ _ rfl fun _ => .inr hexited⟩
          · exact ⟨rfl, fun t => ⟨.inl rfl, .inl⟩⟩
          · exact ⟨rfl, hset ⟨i, hi⟩ _ rfl fun _ => .inr hexited⟩
          · exact ⟨rfl, hset ⟨i, hi⟩ _ rfl .inl⟩
        · obtain rfl := Option.some.inj hstep
          exact ⟨rfl, fun t => ⟨.inl rfl, .inl⟩⟩
      next => cases hstep
  | change free =>
      simp only [next] at hstep
      split_ifs at hstep
      · obtain rfl := Option.some.inj hstep
        exact ⟨rfl, fun t => ⟨.inl rfl, .inl⟩⟩
      · obtain ⟨file, -, rfl⟩ := Option.map_eq_some_iff.mp hstep
        exact ⟨rfl, fun t => ⟨.inl rfl, .inl⟩⟩
  | release =>
      simp only [next] at hstep
      split_ifs at hstep
      obtain ⟨file, -, rfl⟩ := Option.map_eq_some_iff.mp hstep
      refine ⟨rfl, fun t => ⟨hwoken _, fun hj => .inl ?_⟩⟩
      rw [← hjoined]
      exact hj
  | rundown =>
      simp only [next] at hstep
      split at hstep
      next i hmain =>
        split_ifs at hstep with hi
        · obtain rfl := Option.some.inj hstep
          exact ⟨rfl, hset ⟨i, hi⟩ _ rfl .inl⟩
        · obtain rfl := Option.some.inj hstep
          refine ⟨rfl, fun t => ⟨hwoken _, fun hj => .inl ?_⟩⟩
          rw [← hjoined]
          exact hj
      next => cases hstep
  | finish =>
      simp only [next] at hstep
      split_ifs at hstep
      split at hstep
      · obtain rfl := Option.some.inj hstep
        exact ⟨rfl, fun t => ⟨.inl rfl, .inl⟩⟩
      · obtain rfl := Option.some.inj hstep
        exact ⟨rfl, fun t => ⟨.inl rfl, .inl⟩⟩
  | join =>
      simp only [next] at hstep
      split at hstep
      next i hmain =>
        split_ifs at hstep
        · obtain rfl := Option.some.inj hstep
          exact ⟨rfl, fun t => ⟨.inl rfl, .inl⟩⟩
        · obtain rfl := Option.some.inj hstep
          exact ⟨rfl, fun t => ⟨.inl rfl, .inl⟩⟩
      next => cases hstep

omit [NeZero S] in
/-- Only the report leaves `mainthread_mutex`, and nothing leads back from the exit. -/
theorem moves_pos {r : BufData S} {th th' : Thread S} {b : ThreadAction}
    (hmove : Moves o r t th b th') :
    th.pos ≠ .exited ∧ th'.joined = th.joined ∧
      ((∃ seen, th.pos = .counting seen) → b = .report) ∧
      (b = .lockMain → ∃ seen, th'.pos = .counting seen) := by
  cases hmove <;> simp_all

theorem Wound.thread {b : ThreadAction} (h : s.Wound)
    (hstep : s.next o (.thread t b) = some s') : s'.Wound := by
  have hmain := main_thread hstep
  obtain ⟨th', hmove, -, rfl⟩ := exists_moves hstep
  have hset : ∀ {p : Fin S → Thread S → Prop}, (∀ u, p u (s.thread u)) →
      (p t (s.thread t) → p t th') → ∀ u, p u (((s.affect t b).set t th').thread u) :=
    fun {p} hall hth => forall_set (p := p) hall (hth (hall t))
  have hexit := (moves_pos hmove).1
  unfold Wound at h ⊢
  obtain hmain | ⟨-, hafter⟩ := hmain
  · rw [hmain]
    cases hs : s.main <;> simp only [hs] at h ⊢
    case rundown i =>
      exact hset (p := fun u th => u < i → th.Winds) h fun hw hlt => (hw hlt).moves hmove
    case finishing => exact hset (p := fun _ th => th.Called) h fun hc => hc.moves hmove
    case joining i =>
      exact ⟨h.1, hset (p := fun u th => th.Called ∧ (u < i → th.pos = .exited)) h.2
        fun hc => ⟨hc.1.moves hmove, fun hlt => absurd (hc.2 hlt) hexit⟩⟩
    case returned => exact absurd (h t) hexit
  · rw [hafter]
    trivial

/-- A step of the main thread. -/
theorem Threading.main (h : s.Threading) (hstep : s.next o a = some s')
    (ha : ∀ t b, a ≠ .thread t b) : s'.Wound := by
  have hw := h.wound
  cases a with
  | thread t b => exact absurd rfl (ha t b)
  | stop =>
      obtain rfl := Option.some.inj hstep
      exact hw
  | top =>
      simp only [next, Option.ite_some_none_eq_some] at hstep
      obtain ⟨hmain, rfl⟩ := hstep
      unfold Wound
      split_ifs
      · trivial
      · exact fun t hlt => absurd hlt (Nat.not_lt_zero _)
  | lock =>
      simp only [next, Option.ite_some_none_eq_some] at hstep
      obtain ⟨hmain, rfl⟩ := hstep
      unfold Wound
      split_ifs <;> trivial
  | wake =>
      simp only [next, Option.ite_some_none_eq_some] at hstep
      obtain ⟨hmain, rfl⟩ := hstep
      trivial
  | collect =>
      simp only [next] at hstep
      split at hstep
      next i hmain =>
        split_ifs at hstep with hi
        · unfold collectFrom at hstep
          dsimp only at hstep
          split_ifs at hstep
          all_goals
            obtain rfl := Option.some.inj hstep
            trivial
        · obtain rfl := Option.some.inj hstep
          trivial
      next => cases hstep
  | change free =>
      simp only [next] at hstep
      split_ifs at hstep
      · obtain rfl := Option.some.inj hstep
        exact fun t hlt => absurd hlt (Nat.not_lt_zero _)
      · obtain ⟨file, -, rfl⟩ := Option.map_eq_some_iff.mp hstep
        cases free with
        | true => trivial
        | false => exact fun t hlt => absurd hlt (Nat.not_lt_zero _)
  | release =>
      simp only [next] at hstep
      split_ifs at hstep
      obtain ⟨file, -, rfl⟩ := Option.map_eq_some_iff.mp hstep
      trivial
  | rundown =>
      simp only [next] at hstep
      split at hstep
      next i hmain =>
        rw [Wound, hmain] at hw
        split_ifs at hstep with hi
        · obtain rfl := Option.some.inj hstep
          refine (Function.forall_update_iff s.thread fun u th => u < i + 1 → th.Winds).mpr
            ⟨fun _ => Thread.winds_of_clear, fun u hu hlt => hw u ?_⟩
          have hne : u.val ≠ i := fun heq => hu (Fin.ext heq)
          omega
        · obtain rfl := Option.some.inj hstep
          exact fun t => (hw t (by omega)).woken
      next => cases hstep
  | finish =>
      simp only [next] at hstep
      split_ifs at hstep with hmain
      rw [Wound, hmain] at hw
      split at hstep
      · obtain rfl := Option.some.inj hstep
        exact ⟨Nat.zero_le _, fun t => ⟨hw t, fun hlt => absurd hlt (Nat.not_lt_zero _)⟩⟩
      · obtain rfl := Option.some.inj hstep
        trivial
  | join =>
      simp only [next] at hstep
      split at hstep
      next i hmain =>
        rw [Wound, hmain] at hw
        split_ifs at hstep with hi hjoin
        · obtain rfl := Option.some.inj hstep
          refine ⟨hi, fun t => ⟨(hw.2 t).1, fun hlt => ?_⟩⟩
          by_cases ht : t.val = i
          · have heq : t = ⟨i, hi⟩ := Fin.ext ht
            rw [heq]
            exact hjoin.elim (h.joined _) id
          · exact (hw.2 t).2 (by omega)
        · obtain rfl := Option.some.inj hstep
          exact fun t => (hw.2 t).2 (by omega)
      next => cases hstep

theorem Threading.step (h : s.Threading) (hstep : s.next o a = some s') : s'.Threading := by
  by_cases ha : ∃ t b, a = .thread t b
  · obtain ⟨t, b, rfl⟩ := ha
    have hwound := h.wound.thread hstep
    obtain ⟨th', hmove, hallows, rfl⟩ := exists_moves hstep
    obtain ⟨hexit, hjoined, hcounting, hlock⟩ := moves_pos hmove
    refine ⟨?_, ?_, hwound⟩
    · intro u hu
      show ∃ seen, (Function.update (s.affect t b).thread t th' u).pos = .counting seen
      rw [affect_thread]
      change (s.affect t b).mainthreadMutex = some u at hu
      by_cases hb : b = .report ∨ b = .lockMain
      · obtain rfl | rfl := hb
        · cases hu
        · obtain rfl := Option.some.inj hu
          rw [Function.update_self]
          exact hlock rfl
      · rw [not_or] at hb
        have hold : s.mainthreadMutex = some u := by
          rw [← hu]
          cases b <;> simp_all [affect]
        have hpos := h.holder u hold
        rw [Function.update_of_ne]
        · exact hpos
        · rintro rfl
          exact hb.1 (hcounting hpos)
    · refine forall_set (p := fun _ th => th.joined = true → th.pos = .exited) h.joined ?_
      intro hj
      exact absurd (h.joined t (hjoined ▸ hj)) hexit
  · have ha' : ∀ t b, a ≠ .thread t b := fun t b heq => ha ⟨t, b, heq⟩
    obtain ⟨hmutex, hthreads⟩ := main_step hstep ha'
    refine ⟨fun t ht => ?_, fun t hj => ?_, h.main hstep ha'⟩
    · obtain ⟨seen, hseen⟩ := h.holder t (hmutex ▸ ht)
      refine ⟨seen, (hthreads t).1.elim (fun heq => heq.trans hseen) fun hno => ?_⟩
      exact absurd (hno.1.symm.trans hseen) (by simp)
    · have hexit := ((hthreads t).2 hj).elim (h.joined t) id
      exact (hthreads t).1.elim (fun heq => heq.trans hexit) fun hno =>
        absurd (hno.1.symm.trans hexit) (by simp)

theorem threading_of_reachable (h : (system (S := S) o).Reachable s) : s.Threading := by
  refine h.invariant ?_ fun s a s' hinv hstep => hinv.step hstep
  rintro _ rfl
  exact ⟨fun t ht => (by cases ht), fun t ht => (by cases ht), trivial⟩

/-! ## Joining the threads -/

/-- `tcp_preloop` joins all threads, however they go on. -/
def Returns (o : Opt) (s : Threaded S) : Prop :=
  System.Completes (next o) (· ≠ .stop) (fun s => s.main = .returned) s

/-- `tcp_preloop` is joining the threads, and can. -/
structure Joinable (s : Threaded S) : Prop where
  threading : s.Threading
  main : (∃ i, s.main = .joining i) ∨ s.main = .returned
  found : ∀ t, ¬ (s.thread t).Lost

/-- The steps that are left. -/
def left (s : Threaded S) : ℕ :=
  ∑ t, (s.thread t).rank +
    match s.main with
    | .joining i => S + 1 - i
    | _ => 0

/-- From then on only the threads and `pthread_join` take steps. -/
theorem next_joining {i : ℕ} (hmain : s.main = .joining i) (ha : a ≠ .stop)
    (hstep : s.next o a = some s') :
    (∃ t b, a = .thread t b) ∨ (a = .join ∧ s'.thread = s.thread ∧
      ((i < S ∧ s'.main = .joining (i + 1)) ∨ (S ≤ i ∧ s'.main = .returned))) := by
  cases a with
  | thread t b => exact .inl ⟨t, b, rfl⟩
  | stop => exact absurd rfl ha
  | join =>
      simp only [next, hmain] at hstep
      split_ifs at hstep with hi hjoin
      · obtain rfl := Option.some.inj hstep
        exact .inr ⟨rfl, rfl, .inl ⟨hi, rfl⟩⟩
      · obtain rfl := Option.some.inj hstep
        exact .inr ⟨rfl, rfl, .inr ⟨by omega, rfl⟩⟩
  | _ => simp [next, hmain] at hstep

/-- A thread that is joined takes no steps. -/
theorem Threading.not_thread {b : ThreadAction} (h : s.Threading) (hmain : s.main = .returned) :
    s.next o (.thread t b) ≠ some s' := by
  intro hstep
  obtain ⟨th', hmove, -, -⟩ := exists_moves hstep
  have hw := h.wound
  rw [Wound, hmain] at hw
  exact (moves_pos hmove).1 (hw t)

theorem Joinable.descends :
    System.Descends (next o) (Joinable (S := S)) (· ≠ .stop) left := by
  rintro s a s' ⟨hthreading, hmain, hfound⟩ ha hstep
  have hthreading' := hthreading.step hstep
  obtain ⟨i, hmain⟩ | hmain := hmain
  · have hw := hthreading.wound
    rw [Wound, hmain] at hw
    obtain ⟨hle, hcalled⟩ := hw
    obtain ⟨t, b, rfl⟩ | ⟨-, hthread, hto⟩ := next_joining hmain ha hstep
    · have hmain' : s'.main = .joining i := by
        obtain hsame | ⟨hno, -⟩ := main_thread hstep
        · exact hsame.trans hmain
        · exact absurd (hmain.symm.trans hno) (by simp)
      obtain ⟨th', hmove, -, rfl⟩ := exists_moves hstep
      obtain ⟨hlt, hfound'⟩ := (hcalled t).1.rank_lt (hfound t) hmove
      refine ⟨⟨hthreading', .inl ⟨i, hmain'⟩,
        forall_set (p := fun _ th => ¬ th.Lost) hfound hfound'⟩, ?_⟩
      have hsum := sum_update_lt (g := fun _ (th : Thread S) => th.rank) (f := s.thread) hlt
      unfold left
      rw [hmain, hmain']
      show ∑ u, (Function.update (s.affect t b).thread t th' u).rank + _ < _
      rw [affect_thread]
      omega
    · unfold left
      obtain ⟨hi, hmain'⟩ | ⟨hi, hmain'⟩ := hto
      · refine ⟨⟨hthreading', .inl ⟨i + 1, hmain'⟩, fun t => hthread ▸ hfound t⟩, ?_⟩
        rw [hmain, hmain', hthread]
        dsimp only
        omega
      · refine ⟨⟨hthreading', .inr hmain', fun t => hthread ▸ hfound t⟩, ?_⟩
        rw [hmain, hmain', hthread]
        dsimp only
        omega
  · cases a with
    | thread t b => exact absurd hstep (hthreading.not_thread hmain)
    | stop => exact absurd rfl ha
    | _ => simp [next, hmain] at hstep

/-- A thread that is not lost and has not exited takes a step, or waits for one that does. -/
theorem Joinable.goes (h : s.Joinable) {i : ℕ} (hmain : s.main = .joining i)
    (hexited : (s.thread t).pos ≠ .exited) :
    ∃ a s', a ≠ .stop ∧ s.next o a = some s' := by
  have hw := h.threading.wound
  rw [Wound, hmain] at hw
  have hcalled := (hw.2 t).1
  have hgo : ∀ (u : Fin S) (b : ThreadAction), s.allows b = true →
      ((s.thread u).next o s.bufData u b).isSome = true →
      ∃ a s', a ≠ .stop ∧ s.next o a = some s' := by
    intro u b hallows hsome
    obtain ⟨th, hth⟩ := Option.isSome_iff_exists.mp hsome
    exact ⟨.thread u b, (s.affect u b).set u th, by simp, by simp [next, hallows, hth]⟩
  cases hpos : (s.thread t).pos with
  | head => exact hgo t .head rfl (by simp [Thread.next, hpos])
  | locking =>
      exact hgo t .lock (by simp [allows, hmain, MainAt.holdsRecv]) (by simp [Thread.next, hpos])
  | sleeping => exact absurd (.inl (hcalled.asleep hpos)) (h.found t)
  | starting => exact hgo t .begin rfl (by simp [Thread.next, hpos])
  | receiving => exact hgo t .test rfl (by simp [Thread.next, hpos])
  | inRecv => exact hgo t .packet rfl (by simp [Thread.next, hpos])
  | storing => exact hgo t .store rfl (by simp [Thread.next, hpos])
  | reporting =>
      cases hmutex : s.mainthreadMutex with
      | none => exact hgo t .lockMain (by simp [allows, hmutex]) (by simp [Thread.next, hpos])
      | some u =>
          -- the thread that is in the mutex leaves it
          obtain ⟨seen, hseen⟩ := h.threading.holder u hmutex
          exact hgo u .report rfl (by simp [Thread.next, hseen])
  | counting seen => exact hgo t .report rfl (by simp [Thread.next, hpos])
  | exited => exact absurd hpos hexited

theorem Joinable.returns (h : s.Joinable) : Returns o s := by
  refine .of_descends Joinable.descends (fun s hs => ?_) h
  obtain ⟨i, hmain⟩ | hmain := hs.main
  · refine .inr ?_
    by_cases hi : i < S
    · by_cases hexited : (s.thread ⟨i, hi⟩).pos = .exited
      · exact ⟨.join, { s with main := .joining (i + 1) }, by simp,
          by simp [next, hmain, hi, hexited]⟩
      · exact hs.goes hmain hexited
    · exact ⟨.join, { s with main := .returned }, by simp, by simp [next, hmain, hi]⟩
  · exact .inl hmain

/-- `tcp_preloop` waits for a thread that is lost. -/
structure Waiting (t : Fin S) (s : Threaded S) : Prop where
  threading : s.Threading
  main : ∃ i, s.main = .joining i
  lost : (s.thread t).Lost

theorem Waiting.step (h : s.Waiting t) (ha : a ≠ .stop) (hstep : s.next o a = some s') :
    s'.Waiting t := by
  obtain ⟨hthreading, ⟨i, hmain⟩, hlost⟩ := h
  have hw := hthreading.wound
  rw [Wound, hmain] at hw
  obtain ⟨-, hcalled⟩ := hw
  have hthreading' := hthreading.step hstep
  obtain ⟨u, b, rfl⟩ | ⟨-, hthread, hto⟩ := next_joining hmain ha hstep
  · have hmain' : s'.main = .joining i := by
      obtain hsame | ⟨hno, -⟩ := main_thread hstep
      · exact hsame.trans hmain
      · exact absurd (hmain.symm.trans hno) (by simp)
    obtain ⟨th', hmove, -, rfl⟩ := exists_moves hstep
    refine ⟨hthreading', ⟨i, hmain'⟩, ?_⟩
    show (Function.update (s.affect u b).thread u th' t).Lost
    rw [affect_thread]
    by_cases ht : t = u
    · subst ht
      rw [Function.update_self]
      exact hlost.moves (hcalled t).1.toWinds hmove
    · rwa [Function.update_of_ne ht]
  · refine ⟨hthreading', ?_, hthread ▸ hlost⟩
    obtain ⟨-, hmain'⟩ | ⟨hi, -⟩ := hto
    · exact ⟨i + 1, hmain'⟩
    · exact absurd ((hcalled t).2 (by omega)) (hlost.not_exited (hcalled t).1.toWinds)

theorem Waiting.not_returns (h : s.Waiting t) : ¬ Returns o s := by
  intro hreturns
  obtain ⟨as, s', has, hrun, hdone⟩ := hreturns.exists_done
  obtain ⟨-, ⟨i, hmain⟩, -⟩ : s'.Waiting t :=
    System.runFrom_invariant (fun _ _ _ hs ha hstep => hs.step ha hstep) h has hrun
  exact absurd (hmain.symm.trans hdone) (by simp)

/-- **The threads are joined exactly if none is lost.** -/
theorem returns_iff (h : (system (S := S) o).Reachable s) {i : ℕ} (hmain : s.main = .joining i) :
    Returns o s ↔ ∀ t, ¬ (s.thread t).Lost := by
  have hthreading := threading_of_reachable h
  constructor
  · intro hreturns t hlost
    exact Waiting.not_returns (t := t) ⟨hthreading, ⟨i, hmain⟩, hlost⟩ hreturns
  · exact fun hfound => Joinable.returns ⟨hthreading, .inl ⟨i, hmain⟩, hfound⟩

/-- After one buffer the two threads are joined. -/
theorem returns_iff_oneBuffer : ∃ s : Threaded 2, (system twoPackets).Reachable s ∧
    s.main = .joining 0 ∧ Returns twoPackets s := by
  have hview : (System.runFrom (next twoPackets) (started twoPackets) oneBuffer).map
      (fun s => (s.main, (s.thread 0).pos, (s.thread 0).status, (s.thread 1).pos,
        (s.thread 1).status)) = some (.joining 0, .head, .cleared, .head, .cleared) := by
    decide +kernel
  obtain ⟨s, hrun, hs⟩ := Option.map_eq_some_iff.mp hview
  simp only [Prod.mk.injEq] at hs
  obtain ⟨hmain, hpos₀, hstatus₀, hpos₁, hstatus₁⟩ := hs
  have hreach : (system twoPackets).Reachable s := (System.Reachable.init rfl).runFrom hrun
  refine ⟨s, hreach, hmain, (returns_iff hreach hmain).mpr ?_⟩
  rw [Fin.forall_fin_two]
  simp [Thread.Lost, hpos₀, hstatus₀, hpos₁, hstatus₁, ThreadStatus.cleared]

/-! ## A thread that is lost -/

/-- The main loop has not begun, and no mutex is held. -/
structure Quiet (o : Opt) (s : Threaded S) : Prop where
  reachable : (system o).Reachable s
  main : s.main = .top
  mutex : s.mainthreadMutex = none
  received : s.received = Receiving.start

/-- A thread goes on. -/
theorem Quiet.thread {b : ThreadAction} {th : Thread S} (h : s.Quiet o)
    (hmove : Moves o s.bufData t (s.thread t) b th) (hlock : b ≠ .lockMain)
    (hreport : b ≠ .report) :
    ∃ s' : Threaded S, s'.Quiet o ∧ s'.thread t = th ∧ s'.bufData = s.bufData := by
  have hallows : s.allows b = true := by
    cases b <;> simp_all [allows, h.main, MainAt.holdsRecv]
  have hstep : s.next o (.thread t b) = some ((s.affect t b).set t th) := by
    simp [next, hallows, hmove.next_eq]
  refine ⟨_, ⟨h.reachable.step hstep, ?_, ?_, ?_⟩, ?_, affect_bufData t b s⟩
  · exact (affect_main t b s hreport).trans h.main
  · show (s.affect t b).mainthreadMutex = none
    cases b <;> simp_all [affect, h.mutex]
  · exact (affect_received t b s).trans h.received
  · show Function.update (s.affect t b).thread t th t = th
    rw [Function.update_self]

/-- Thread `t` has `k` packets of the first buffer. -/
theorem exists_receiving (o : Opt) (t : Fin S) {k : ℕ} (hk : k ≤ share o 0 t) :
    ∃ s : Threaded S, s.Quiet o ∧ (s.thread t).pos = .receiving ∧
      (s.thread t).status = .running ∧ (s.thread t).ready = k ∧
      (s.thread t).bd = receiving S o.bufNumElems 0 := by
  induction k with
  | zero =>
      have hstart : (started o : Threaded S).Quiet o := ⟨.init rfl, rfl, rfl, rfl⟩
      obtain ⟨s₁, hs₁, hth₁, hbd₁⟩ := hstart.thread (t := t) (.headOn rfl rfl) (by simp) (by simp)
      obtain ⟨s₂, hs₂, hth₂, hbd₂⟩ := hs₁.thread (t := t)
        (.lockOn (by rw [hth₁]) (by rw [hth₁]; rfl) (by rw [hth₁]; rfl)) (by simp) (by simp)
      obtain ⟨s₃, hs₃, hth₃, -⟩ := hs₂.thread (t := t) (.begin (by rw [hth₂])) (by simp) (by simp)
      refine ⟨s₃, hs₃, by rw [hth₃], ?_, by rw [hth₃], ?_⟩
      · rw [hth₃, hth₂, hth₁]
        rfl
      · rw [hth₃, hbd₂, hbd₁]
        rfl
  | succ k ih =>
      obtain ⟨s, hs, hpos, hstatus, hready, hbd⟩ := ih (by omega)
      have hmore : (s.thread t).ready < (s.thread t).bd.maxPackets o.bufNumElems t := by
        rw [hready, hbd]
        exact hk
      obtain ⟨s₁, hs₁, hth₁, -⟩ := hs.thread (t := t)
        (.testMore hpos hmore (by rw [hstatus]; rfl)) (by simp) (by simp)
      obtain ⟨s₂, hs₂, hth₂, -⟩ := hs₁.thread (t := t) (.packet (by rw [hth₁])) (by simp) (by simp)
      refine ⟨s₂, hs₂, by rw [hth₂], ?_, ?_, ?_⟩
      · rw [hth₂, hth₁]
        exact hstatus
      · rw [hth₂, hth₁, ← hready]
      · rw [hth₂, hth₁]
        exact hbd

/-- Thread `t` has read its flags, and the event is stopped. -/
theorem exists_stopped (o : Opt) (t : Fin S) :
    ∃ s : Threaded S, (system o).Reachable s ∧ s.main = .rundown 0 ∧
      s.received = Receiving.start ∧ (s.thread t).pos = .counting (some .running) := by
  obtain ⟨s, hs, hpos, hstatus, hready, hbd⟩ := exists_receiving o t (le_refl _)
  have hfull : (s.thread t).ready = (s.thread t).bd.maxPackets o.bufNumElems t := by
    rw [hready, hbd]
    rfl
  obtain ⟨s₁, hs₁, hth₁, -⟩ := hs.thread (t := t) (.testDone hpos (.inl hfull.ge))
    (by simp) (by simp)
  obtain ⟨s₂, hs₂, hth₂, -⟩ := hs₁.thread (t := t) (.store (by rw [hth₁])) (by simp) (by simp)
  let th : Thread S := { s₂.thread t with pos := .counting (some (s₂.thread t).status) }
  have hread : Moves o s₂.bufData t (s₂.thread t) .lockMain th :=
    .lockMainFull (by rw [hth₂]) (by rw [hth₂, hth₁]; exact hfull)
  have hflags : (s₂.thread t).status = .running := by
    rw [hth₂, hth₁]
    exact hstatus
  let s₃ := (s₂.affect t .lockMain).set t th
  have hlock : s₂.next o (.thread t .lockMain) = some s₃ := by
    simp [next, allows, hs₂.mutex, hread.next_eq, s₃]
  have hs₃ : (system o).Reachable s₃ := hs₂.reachable.step hlock
  have hstop : (system o).Reachable { s₃ with running := false } := hs₃.step (a := .stop) rfl
  refine ⟨_, hstop.step (a := .top) (if_pos hs₂.main), rfl, hs₂.received, ?_⟩
  show (Function.update s₂.thread t th t).pos = _
  rw [Function.update_self, ← hflags]

/-- The rundown goes on while the thread is in `mainthread_mutex`. -/
theorem exists_rundown (o : Opt) (t : Fin S) {i : ℕ} (hi : i ≤ S) :
    ∃ s : Threaded S, (system o).Reachable s ∧ s.main = .rundown i ∧
      s.received = Receiving.start ∧ (s.thread t).pos = .counting (some .running) := by
  induction i with
  | zero => exact exists_stopped o t
  | succ i ih =>
      obtain ⟨s, hs, hmain, hreceived, hpos⟩ := ih (by omega)
      have hstep : s.next o .rundown = some
          { (s.add ⟨i, hi⟩).set ⟨i, hi⟩ { s.thread ⟨i, hi⟩ with status := .cleared } with
            main := .rundown (i + 1) } := by
        simp only [next, hmain]
        exact dif_pos hi
      refine ⟨_, hs.step hstep, rfl, hreceived, ?_⟩
      show (Function.update s.thread _ _ t).pos = _
      by_cases ht : t = ⟨i, hi⟩
      · subst ht
        rw [Function.update_self]
        exact hpos
      · rw [Function.update_of_ne ht]
        exact hpos

/-- **A thread is lost**: it has read its flags when the event is stopped, and writes them back
after they are cleared.  The recording is not over then. -/
theorem exists_lost (o : Opt) (t : Fin S) :
    ∃ s : Threaded S, (system o).Reachable s ∧ s.main = .joining 0 ∧ (s.thread t).Lost ∧
      ¬ Returns o s := by
  obtain ⟨s, hs, hmain, hreceived, hpos⟩ := exists_rundown o t (le_refl S)
  have hcalls : s.next o .rundown = some
      { s with thread := fun t => (s.thread t).woken, main := .finishing } := by
    simp only [next, hmain]
    exact dif_neg (Nat.lt_irrefl S)
  have hcalled := hs.step hcalls
  obtain ⟨received, hepilogue⟩ : ∃ received, Receiving.multistreamEpilogue o
      { s.received with buf := s.content } = .returned received := by
    rw [hreceived]
    simp only [Receiving.multistreamEpilogue, Receiving.start]
    split
    · exact ⟨_, rfl⟩
    · exact ⟨_, rfl⟩
  have hfinish : ({ s with thread := fun t => (s.thread t).woken, main := .finishing } :
      Threaded S).next o .finish = some
        { s with
          thread := fun t => (s.thread t).woken
          received := received
          main := .joining 0 } := by
    have hcontent : ({ s with thread := fun t => (s.thread t).woken, main := .finishing } :
        Threaded S).content = s.content := rfl
    simp only [next, hcontent, hepilogue, if_true]
  have hend := hcalled.step hfinish
  have hlost : ((s.thread t).woken).Lost := by
    refine .inr ⟨.running, ?_, rfl⟩
    rw [Thread.woken, if_neg (by simp [hpos])]
    exact hpos
  refine ⟨_, hend, rfl, hlost, fun hreturns => ?_⟩
  exact Waiting.not_returns (t := t) ⟨threading_of_reachable hend, ⟨0, rfl⟩, hlost⟩ hreturns

theorem exists_lost_first : ∃ s : Threaded 2, (system twoPackets).Reachable s ∧
    s.main = .joining 0 ∧ (s.thread 0).Lost ∧ ¬ Returns twoPackets s :=
  exists_lost twoPackets 0

end Threaded

end VlbiStreamer.TcpStream
