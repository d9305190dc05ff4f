import VlbiStreamer.ActiveFileIndex.Registry
import VlbiStreamer.Library.Transition

/-!
# Joining a recording

Every sender of a recording shares its index with the other senders and with the
recorder, if it is still being made.  Who comes first makes the index in `init_cfg`,
who comes later joins it, and who leaves last closes it.

`Recording` is one recording with its index and its clients, and `Event` what they do.
`Recording.Right` says that `n_packets` is the number of packets of the recording.
`right_of_reachable` says in which runs it stays so: a sender that finds a cfg adds the
packets of the recording to the index even when it has them already, so that only the
sender who makes the index may find one.
-/

namespace VlbiStreamer.Sender

open ActiveFileIndex Library

/-- What `init_cfg` takes from the cfg of a recording. -/
structure Cfg where
  cumul : ℕ
  totalPackets : ℕ
  deriving DecidableEq, Repr

/-- The index that `init_cfg` makes for the first sender of a finished recording. -/
def openedIndex (cfg : Cfg) : FileIndex :=
  (afiAdd cfg.cumul afiSend 0).afiAddToPackets cfg.totalPackets

/-- `afi_add_to_packets` on an index in the list. -/
def credited (n : ℕ) (e : Entry) : Entry := { e with fi := e.fi.afiAddToPackets n }

/-- `init_cfg` in `READMODE`, as far as it concerns the index of the recording. -/
def initCfgRead (filename : String) : Option Cfg → Option Entry → Option Entry
  | some cfg, none => some ⟨filename, 1, openedIndex cfg⟩
  | some cfg, some e => some (credited cfg.totalPackets (associated .sender e))
  -- without a cfg there has to be a live recording
  | none, some e => some { e with associations := e.associations + 1 }
  | none, none => none

/-- `init_cfg` of a recorder, in the same way. -/
def initCfgWrite (filename : String) (packetSize : ℕ) : Option Entry → Option Entry
  | none => some ⟨filename, 1, afiAdd 0 afiRecord packetSize⟩
  | some e => if e.recording then none else some (associated .recorder e)

/-- `afi_disassociate`: what is left of the index. -/
def left (role : Role) (e : Entry) : Option Entry :=
  if e.associations - 1 = 0 then none else some (dissociated role e)

/-! ## The clients of a recording -/

/-- A recording. -/
structure Recording where
  filename : String
  index : Option Entry
  /-- The cfg on its disks. -/
  cfg : Option Cfg
  senders : ℕ
  /-- The packets that the recorder has added, when there is one. -/
  recorder : Option ℕ

/-- What a client does. -/
inductive Event where
  | startSending
  | endSending
  | startRecording (packetSize : ℕ)
  | addToPackets (n : ℕ)
  /-- The recorder writes its cfg and leaves. -/
  | endRecording (cfg : Cfg)

namespace Recording

/-- The events of a recording are started and closed by one thread; packets are added
under the lock of the index. -/
def next (r : Recording) : Event → Option Recording
  | .startSending =>
      (initCfgRead r.filename r.cfg r.index).map fun e =>
        { r with index := some e, senders := r.senders + 1 }
  | .endSending =>
      match r.index with
      | some e =>
          if 0 < r.senders ∧ 0 < e.associations then
            some { r with index := left .sender e, senders := r.senders - 1 }
          else none
      | none => none
  | .startRecording packetSize =>
      if r.recorder.isNone then
        (initCfgWrite r.filename packetSize r.index).map fun e =>
          { r with index := some e, recorder := some 0 }
      else none
  | .addToPackets n =>
      match r.index, r.recorder with
      | some e, some added =>
          some { r with index := some (credited n e), recorder := some (added + n) }
      | _, _ => none
  | .endRecording cfg =>
      match r.index, r.recorder with
      | some e, some _ =>
          if 0 < e.associations then
            some { r with index := left .recorder e, cfg := some cfg, recorder := none }
          else none
      | _, _ => none

/-- Nobody has the recording open yet. -/
def IsClosed (r : Recording) : Prop := r.index = none ∧ r.senders = 0 ∧ r.recorder = none

/-- All the orders in which senders and a recorder come and go. -/
def system : System Recording Event := .ofNext IsClosed next

/-- The packets that the recording really has: those that were added while it is live,
and those of its cfg when it is finished. -/
def packets (r : Recording) : Option ℕ := r.recorder.or (r.cfg.map Cfg.totalPackets)

/-- The shared count is right. -/
def Right (r : Recording) : Prop := ∀ e, r.index = some e → r.packets = some e.fi.nPackets

/-- A cfg is only found by who makes the index, or when it counts no packets; a recorder
only joins an index that counts no packets; and it only leaves senders behind with a cfg
that has the packets it has added. -/
def Sole (r : Recording) : Event → Prop
  | .startSending => ∀ e cfg, r.index = some e → r.cfg = some cfg → cfg.totalPackets = 0
  | .startRecording _ => ∀ e, r.index = some e → e.fi.nPackets = 0
  | .endRecording cfg => 0 < r.senders → r.recorder = some cfg.totalPackets
  | _ => True

/-- The associations of the index are its clients. -/
structure Joined (r : Recording) : Prop where
  closed : r.index = none → r.senders = 0 ∧ r.recorder = none
  opened : ∀ e, r.index = some e →
    e.associations = r.senders + r.recorder.elim 0 (fun _ => 1) ∧ 0 < e.associations

/-- What holds along the runs that count right. -/
def Sound (r : Recording) : Prop := r.Joined ∧ r.Right

section Entries

variable {e e' : Entry} {role : Role} {n : ℕ}

@[simp] theorem credited_nPackets : (credited n e).fi.nPackets = e.fi.nPackets + n := rfl

@[simp] theorem credited_associations : (credited n e).associations = e.associations := rfl

@[simp] theorem associated_nPackets :
    (associated role e).fi.nPackets = e.fi.nPackets := rfl

@[simp] theorem dissociated_nPackets :
    (dissociated role e).fi.nPackets = e.fi.nPackets := by
  unfold dissociated
  dsimp only
  split <;> rfl

/-- Who leaves last leaves no index. -/
theorem left_eq_none_iff : left role e = none ↔ e.associations ≤ 1 := by
  unfold left
  split <;> simp <;> omega

/-- Who leaves others leaves them the index. -/
theorem left_eq_some (h : left role e = some e') :
    e' = dissociated role e ∧ 1 < e.associations := by
  unfold left at h
  split at h
  · cases h
  · exact ⟨(Option.some.inj h).symm, by omega⟩

end Entries

section Steps

variable {r r' : Recording} {event : Event}

/-- What the events do, one case for each way. -/
inductive Step (r : Recording) : Event → Recording → Prop where
  | create {cfg : Cfg} : r.index = none → r.cfg = some cfg → Step r .startSending
      { r with index := some ⟨r.filename, 1, openedIndex cfg⟩, senders := r.senders + 1 }
  | join {e : Entry} {cfg : Cfg} : r.index = some e → r.cfg = some cfg → Step r .startSending
      { r with
        index := some (credited cfg.totalPackets (associated .sender e))
        senders := r.senders + 1 }
  | joinLive {e : Entry} : r.index = some e → r.cfg = none → Step r .startSending
      { r with
        index := some { e with associations := e.associations + 1 }
        senders := r.senders + 1 }
  | endSending {e : Entry} : r.index = some e → 0 < r.senders → Step r .endSending
      { r with index := left .sender e, senders := r.senders - 1 }
  | record {packetSize : ℕ} : r.index = none → r.recorder = none →
      Step r (.startRecording packetSize)
      { r with
        index := some ⟨r.filename, 1, afiAdd 0 afiRecord packetSize⟩
        recorder := some 0 }
  | recordMore {e : Entry} {packetSize : ℕ} : r.index = some e → r.recorder = none →
      Step r (.startRecording packetSize)
      { r with index := some (associated .recorder e), recorder := some 0 }
  | addToPackets {e : Entry} {added n : ℕ} : r.index = some e → r.recorder = some added →
      Step r (.addToPackets n)
      { r with index := some (credited n e), recorder := some (added + n) }
  | endRecording {e : Entry} {added : ℕ} {cfg : Cfg} : r.index = some e →
      r.recorder = some added → Step r (.endRecording cfg)
      { r with index := left .recorder e, cfg := some cfg, recorder := none }

theorem step_of_next (h : r.next event = some r') : Step r event r' := by
  unfold next at h
  cases event with
  | startSending =>
      obtain ⟨e, hinit, heq⟩ := Option.map_eq_some_iff.mp h
      cases hcfg : r.cfg <;> cases hindex : r.index <;> rw [hcfg, hindex] at hinit <;>
        cases hinit
      · exact heq ▸ .joinLive hindex hcfg
      · exact heq ▸ .create hindex hcfg
      · exact heq ▸ .join hindex hcfg
  | endSending =>
      cases hindex : r.index <;> rw [hindex] at h
      · cases h
      · dsimp only at h
        split at h
        · next hclients =>
            cases h
            exact .endSending hindex hclients.1
        · cases h
  | startRecording packetSize =>
      cases hrecorder : r.recorder <;> rw [hrecorder] at h
      · obtain ⟨e, hinit, rfl⟩ := Option.map_eq_some_iff.mp h
        unfold initCfgWrite at hinit
        cases hindex : r.index <;> rw [hindex] at hinit
        · cases hinit
          exact .record hindex hrecorder
        · dsimp only at hinit
          split at hinit
          · cases hinit
          · cases hinit
            exact .recordMore hindex hrecorder
      · cases h
  | addToPackets n =>
      cases hindex : r.index <;> cases hrecorder : r.recorder <;>
        rw [hindex, hrecorder] at h <;> cases h
      exact .addToPackets hindex hrecorder
  | endRecording cfg =>
      cases hindex : r.index <;> cases hrecorder : r.recorder <;>
        rw [hindex, hrecorder] at h
      · cases h
      · cases h
      · cases h
      · dsimp only at h
        split at h
        · cases h
          exact .endRecording hindex hrecorder
        · cases h

/-- Clients that come and go are counted. -/
theorem Step.joined (hstep : Step r event r') (h : r.Joined) : r'.Joined := by
  cases hstep with
  | create hindex hcfg =>
      obtain ⟨hsenders, hrecorder⟩ := h.closed hindex
      refine ⟨(nomatch ·), fun e hsome => ?_⟩
      obtain rfl := Option.some.inj hsome
      exact ⟨by simp [hsenders, hrecorder], Nat.one_pos⟩
  | join hindex hcfg =>
      obtain ⟨hcount, -⟩ := h.opened _ hindex
      refine ⟨(nomatch ·), fun e hsome => ?_⟩
      obtain rfl := Option.some.inj hsome
      exact ⟨by simp [hcount]; omega, by simp⟩
  | joinLive hindex hcfg =>
      obtain ⟨hcount, -⟩ := h.opened _ hindex
      refine ⟨(nomatch ·), fun e hsome => ?_⟩
      obtain rfl := Option.some.inj hsome
      exact ⟨by simp [hcount]; omega, Nat.succ_pos _⟩
  | endSending hindex hsender =>
      obtain ⟨hcount, hpos⟩ := h.opened _ hindex
      refine ⟨fun hnone => ?_, fun e' hsome => ?_⟩
      · have hlast := left_eq_none_iff.mp hnone
        refine ⟨?_, ?_⟩
        · dsimp only
          omega
        · cases hrecorder : r.recorder
          · rfl
          · rw [hrecorder, Option.elim_some] at hcount
            omega
      · obtain ⟨rfl, hmore⟩ := left_eq_some hsome
        rw [Registry.dissociated_associations]
        refine ⟨?_, by omega⟩
        dsimp only
        omega
  | record hindex hrecorder =>
      obtain ⟨hsenders, -⟩ := h.closed hindex
      refine ⟨(nomatch ·), fun e hsome => ?_⟩
      obtain rfl := Option.some.inj hsome
      exact ⟨by simp [hsenders], Nat.one_pos⟩
  | recordMore hindex hrecorder =>
      obtain ⟨hcount, -⟩ := h.opened _ hindex
      rw [hrecorder] at hcount
      refine ⟨(nomatch ·), fun e hsome => ?_⟩
      obtain rfl := Option.some.inj hsome
      exact ⟨by simpa using hcount, by simp⟩
  | addToPackets hindex hrecorder =>
      obtain ⟨hcount, hpos⟩ := h.opened _ hindex
      rw [hrecorder] at hcount
      refine ⟨(nomatch ·), fun e hsome => ?_⟩
      obtain rfl := Option.some.inj hsome
      exact ⟨by simpa using hcount, hpos⟩
  | endRecording hindex hrecorder =>
      obtain ⟨hcount, hpos⟩ := h.opened _ hindex
      rw [hrecorder, Option.elim_some] at hcount
      refine ⟨fun hnone => ⟨?_, rfl⟩, fun e' hsome => ?_⟩
      · have hlast := left_eq_none_iff.mp hnone
        dsimp only
        omega
      · obtain ⟨rfl, hmore⟩ := left_eq_some hsome
        rw [Registry.dissociated_associations]
        refine ⟨?_, by omega⟩
        simp only [Option.elim_none]
        omega

/-- **A step keeps the count right exactly if it is taken by the sole client that counts
the packets.** -/
theorem Step.right_iff (hstep : Step r event r') (hjoined : r.Joined) (h : r.Right) :
    r'.Right ↔ r.Sole event := by
  cases hstep with
  | create hindex hcfg =>
      obtain ⟨-, hrecorder⟩ := hjoined.closed hindex
      refine ⟨fun _ e cfg he => ?_, fun _ e he => ?_⟩
      · rw [hindex] at he
        cases he
      · obtain rfl := Option.some.inj he
        simp [packets, hrecorder, hcfg, openedIndex, FileIndex.afiAddToPackets, afiAdd]
  | @join e cfg hindex hcfg =>
      have hold := h e hindex
      constructor
      · intro hright e' cfg' he' hcfg'
        obtain rfl := Option.some.inj (hcfg.symm.trans hcfg')
        -- the packets were in the index already, and here they are added again
        have hnew : r.packets = some (e.fi.nPackets + cfg.totalPackets) := hright _ rfl
        rw [hold] at hnew
        have heq := Option.some.inj hnew
        omega
      · intro hsole e' he'
        obtain rfl := Option.some.inj he'
        have hzero := hsole e cfg hindex hcfg
        show r.packets = some (e.fi.nPackets + cfg.totalPackets)
        rw [hold, hzero]
        rfl
  | @joinLive e hindex hcfg =>
      refine ⟨fun _ e' cfg he' hcfg' => ?_, fun _ e' he' => ?_⟩
      · rw [hcfg] at hcfg'
        cases hcfg'
      · obtain rfl := Option.some.inj he'
        exact h e hindex
  | @endSending e hindex hsender =>
      refine ⟨fun _ => trivial, fun _ e' he' => ?_⟩
      obtain ⟨rfl, -⟩ := left_eq_some he'
      rw [dissociated_nPackets]
      exact h e hindex
  | record hindex hrecorder =>
      refine ⟨fun _ e he => ?_, fun _ e he => ?_⟩
      · rw [hindex] at he
        cases he
      · obtain rfl := Option.some.inj he
        rfl
  | @recordMore e packetSize hindex hrecorder =>
      constructor
      · intro hright e' he'
        obtain rfl := Option.some.inj (hindex.symm.trans he')
        have hnew : some 0 = some e.fi.nPackets := hright (associated .recorder e) rfl
        exact (Option.some.inj hnew).symm
      · intro hsole e' he'
        obtain rfl := Option.some.inj he'
        exact congrArg some (hsole e hindex).symm
  | @addToPackets e added n hindex hrecorder =>
      refine ⟨fun _ => trivial, fun _ e' he' => ?_⟩
      obtain rfl := Option.some.inj he'
      have hold := h e hindex
      rw [packets, hrecorder] at hold
      have heq : added = e.fi.nPackets := Option.some.inj hold
      show some (added + n) = some (e.fi.nPackets + n)
      rw [heq]
  | @endRecording e added cfg hindex hrecorder =>
      obtain ⟨hcount, hpos⟩ := hjoined.opened e hindex
      rw [hrecorder, Option.elim_some] at hcount
      have hold := h e hindex
      rw [packets, hrecorder] at hold
      have heq : added = e.fi.nPackets := Option.some.inj hold
      constructor
      · intro hright hsenders
        have hleft : left .recorder e = some (dissociated .recorder e) :=
          if_neg (by omega)
        have hnew : some cfg.totalPackets = some (dissociated .recorder e).fi.nPackets :=
          hright _ hleft
        rw [dissociated_nPackets] at hnew
        rw [hrecorder, heq, hnew]
      · intro hsole e' he'
        obtain ⟨rfl, hmore⟩ := left_eq_some he'
        have hsame := hsole (by omega)
        rw [hrecorder, heq] at hsame
        rw [dissociated_nPackets]
        exact hsame.symm

end Steps

/-! ## Runs -/

section Results

variable {r r' : Recording} {event : Event}

theorem joined_of_reachable (h : system.Reachable r) : r.Joined := by
  refine h.invariant ?_ ?_
  · rintro r ⟨hindex, hsenders, hrecorder⟩
    refine ⟨fun _ => ⟨hsenders, hrecorder⟩, fun e he => ?_⟩
    rw [hindex] at he
    cases he
  · exact fun r event r' hjoined hnext => (step_of_next hnext).joined hjoined

theorem sound_of_reachable (h : system.ReachableUnder Sole r) : r.Sound := by
  refine h.invariant ?_ ?_
  · rintro r ⟨hindex, hsenders, hrecorder⟩
    refine ⟨⟨fun _ => ⟨hsenders, hrecorder⟩, fun e he => ?_⟩, fun e he => ?_⟩ <;>
      · rw [hindex] at he
        cases he
  · rintro r event r' ⟨hjoined, hright⟩ hsole hnext
    have hstep := step_of_next hnext
    exact ⟨hstep.joined hjoined, (hstep.right_iff hjoined hright).mpr hsole⟩

/-- **The packets of the index are those of the recording** in every run in which nobody
counts them a second time. -/
theorem right_of_reachable (h : system.ReachableUnder Sole r) : r.Right :=
  (sound_of_reachable h).2

/-- Nothing else keeps it right. -/
theorem right_next_iff (h : system.ReachableUnder Sole r) (hnext : r.next event = some r') :
    r'.Right ↔ r.Sole event :=
  (step_of_next hnext).right_iff (joined_of_reachable h.reachable) (sound_of_reachable h).2

end Results

/-- A finished recording of a thousand packets that nobody sends yet. -/
def finished : Recording := ⟨"first", none, some ⟨2, 1000⟩, 0, none⟩

theorem right_of_reachable_finished :
    ∃ r, System.runFrom next finished [.startSending, .endSending, .startSending] = some r ∧
      r.Right := by
  obtain ⟨r, hrun⟩ : ∃ r, System.runFrom next finished [.startSending, .endSending,
    .startSending] = some r := ⟨_, rfl⟩
  have hinit : system.ReachableUnder Sole finished := .init ⟨rfl, rfl, rfl⟩
  suffices hok : System.OkFrom Sole next finished [.startSending, .endSending, .startSending] from
    ⟨r, hrun, right_of_reachable (hinit.runFrom hok hrun)⟩
  refine ⟨?_, fun r ht => ?_⟩
  · rintro e cfg he
    cases he
  · obtain rfl := Option.some.inj ht
    refine ⟨trivial, fun r ht => ?_⟩
    obtain rfl := Option.some.inj ht
    refine ⟨fun e cfg he => ?_, fun r ht => trivial⟩
    cases he

/-- The second sender of a recording counts its packets again. -/
theorem second_sender_counts_again : ¬ ∀ r, system.Reachable r → r.Right := by
  intro hall
  obtain ⟨r, hrun⟩ : ∃ r, System.runFrom next finished [.startSending, .startSending] = some r :=
    ⟨_, rfl⟩
  have hinit : system.Reachable finished := .init ⟨rfl, rfl, rfl⟩
  have hright := hall r (hinit.runFrom hrun)
  obtain rfl := Option.some.inj hrun
  have hpackets := hright _ rfl
  exact absurd hpackets (by decide)

end Recording

end VlbiStreamer.Sender
