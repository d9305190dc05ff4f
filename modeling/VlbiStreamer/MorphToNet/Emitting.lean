import VlbiStreamer.MorphToNet.Ring

/-!
# What the file-to-network tool sends

`inv_of_reachable`: in every interleaving `n_ready` counts the packets that were
announced and not sent, it never exceeds the ring, and the cursors stay inside it.
At the end of the file `start_reading` announces the packets that its last `read`
was to bring and did not.  The sending thread only ends when it has sent all that
was announced, so it always sends more than the file has (`total_lt_of_ended`) and
the tool is never correct (`not_correct`).

`exists_ended` is a run that ends, for any file and any ring, and `exists_stalled`
one that does not: the sending thread goes back to sleep between the last `SIGNAL`
and the clearing of `OPTS_READING`.  `exists_overwritten` is a run in which a short
read at the end of the ring makes the reading thread wrap too early.
-/

namespace VlbiStreamer.MorphToNet

open Library

namespace Options

variable (o : Options)

/-- Clipping, counted in packets. -/
theorem clip_eq (i n : ℕ) : o.clip (i * o.packetSize) n =
    if o.buffermultiplier ≤ i + n then (true, o.buffermultiplier - i) else (false, n) := by
  have hpos := o.packetSize_pos
  have hiff : o.endofbuffer ≤ i * o.packetSize + n * o.packetSize ↔
      o.buffermultiplier ≤ i + n := by
    rw [endofbuffer, ← Nat.add_mul, Nat.mul_le_mul_right_iff hpos]
  have hleft : (o.endofbuffer - i * o.packetSize) / o.packetSize = o.buffermultiplier - i := by
    rw [endofbuffer, ← Nat.sub_mul, Nat.mul_div_cancel _ hpos]
  unfold clip
  simp only [hiff, hleft]

end Options

/-! ## The invariant -/

/-- The reading thread announces no more than fits. -/
def Reader.Fits (o : Options) (nReady i : ℕ) (r : Reader) : Prop :=
  match r.pos with
  | .top => ∃ k, r.err = k * o.packetSize ∧ nReady + k ≤ o.buffermultiplier ∧
      (r.toStart = true ∨ i + k < o.buffermultiplier)
  | .waiting | .woken => r.toStart = false ∧ nReady ≤ o.buffermultiplier
  | .reading | .endOfFile => 0 < r.toread ∧ nReady + r.toread ≤ o.buffermultiplier ∧
      i + r.toread ≤ o.buffermultiplier ∧
      (r.toStart = true ∨ i + r.toread < o.buffermultiplier)
  | .leaving | .returned => nReady ≤ o.buffermultiplier

/-- The packets of the last `read` that are not announced yet. -/
def Reader.unannounced (o : Options) (r : Reader) : ℕ :=
  match r.pos with
  | .top => r.err / o.packetSize
  | _ => 0

/-- The reading thread has announced packets that do not exist. -/
def Reader.Late (r : Reader) : Prop := r.pos = .leaving ∨ r.pos = .returned

/-- The sending thread sends no more than was announced. -/
def Sender.Fits (o : Options) (nReady : ℕ) (reading : Bool) (j : ℕ) (d : Sender) : Prop :=
  match d.pos with
  | .top => d.doSend ≤ nReady ∧ (d.toStart = true ∨ j < o.buffermultiplier)
  | .waiting | .woken => d.toStart = false ∧ j < o.buffermultiplier
  | .sending => 0 < d.doSend ∧ d.sending ≤ d.doSend ∧ d.doSend ≤ nReady ∧
      j + (d.doSend - d.sending) ≤ o.buffermultiplier ∧
      (d.toStart = true ∨ j + (d.doSend - d.sending) < o.buffermultiplier)
  | .returned => nReady = 0 ∧ reading = false

/-- The packets of the batch that are sent and still counted in `n_ready`. -/
def Sender.stillCounted (d : Sender) : ℕ :=
  match d.pos with
  | .top => d.doSend
  | .sending => d.sending
  | _ => 0

section Signals

variable {o : Options} {nReady i j : ℕ} {reading : Bool} {r : Reader} {d : Sender}

/-- A signal changes nothing that the invariant speaks of. -/
theorem Sender.fits_signalled :
    d.signalled.Fits o nReady reading j ↔ d.Fits o nReady reading j := by
  unfold signalled
  split
  · rename_i hpos
    simp [Fits, hpos]
  · rfl

@[simp] theorem Sender.stillCounted_signalled : d.signalled.stillCounted = d.stillCounted := by
  unfold signalled
  split
  · rename_i hpos
    simp [stillCounted, hpos]
  · rfl

@[simp] theorem Sender.readHere_signalled : d.signalled.readHere = d.readHere := by
  unfold signalled
  split <;> rfl

theorem Reader.fits_signalled : r.signalled.Fits o nReady i ↔ r.Fits o nReady i := by
  unfold signalled
  split
  · rename_i hpos
    simp [Fits, hpos]
  · rfl

@[simp] theorem Reader.unannounced_signalled : r.signalled.unannounced o = r.unannounced o := by
  unfold signalled
  split
  · rename_i hpos
    simp [unannounced, hpos]
  · rfl

@[simp] theorem Reader.writeHere_signalled : r.signalled.writeHere = r.writeHere := by
  unfold signalled
  split <;> rfl

@[simp] theorem Reader.late_signalled : r.signalled.Late ↔ r.Late := by
  unfold signalled
  split
  · rename_i hpos
    simp [Late, hpos]
  · rfl

@[simp] theorem Reader.returned_signalled :
    r.signalled.pos = .returned ↔ r.pos = .returned := by
  unfold signalled
  split
  · rename_i hpos
    simp [hpos]
  · rfl

@[simp] theorem Reader.endOfFile_signalled :
    r.signalled.pos = .endOfFile ↔ r.pos = .endOfFile := by
  unfold signalled
  split
  · rename_i hpos
    simp [hpos]
  · rfl

/-- What was announced before is still announced. -/
theorem Sender.Fits.mono {nReady' : ℕ} (h : d.Fits o nReady reading j)
    (hready : nReady ≤ nReady') (hreading : reading ≠ false) :
    d.Fits o nReady' reading j := by
  unfold Fits at h ⊢
  cases hpos : d.pos <;> simp only [hpos] at h ⊢
  · exact ⟨h.1.trans hready, h.2⟩
  · exact h
  · exact h
  · exact ⟨h.1, h.2.1, h.2.2.1.trans hready, h.2.2.2⟩
  · exact absurd h.2 hreading

/-- What fitted before still fits. -/
theorem Reader.Fits.mono {nReady' : ℕ} (h : r.Fits o nReady i) (hready : nReady' ≤ nReady) :
    r.Fits o nReady' i := by
  unfold Fits at h ⊢
  cases hpos : r.pos <;> simp only [hpos] at h ⊢
  · obtain ⟨k, hk, hroom, hwrap⟩ := h
    exact ⟨k, hk, by omega, hwrap⟩
  · exact ⟨h.1, by omega⟩
  · exact ⟨h.1, by omega⟩
  · exact ⟨h.1, by omega, h.2.2⟩
  · exact ⟨h.1, by omega, h.2.2⟩
  · omega
  · omega

/-- What is announced fits the ring. -/
theorem Reader.Fits.le (h : r.Fits o nReady i) : nReady ≤ o.buffermultiplier := by
  unfold Fits at h
  cases hpos : r.pos <;> simp only [hpos] at h
  · obtain ⟨k, -, hroom, -⟩ := h
    omega
  all_goals omega

end Signals

namespace Options

variable (o : Options)

/-- **The invariant of the two threads.** -/
structure Inv (s : Tool) : Prop where
  reader : ∃ i < o.buffermultiplier, s.reader.writeHere = i * o.packetSize ∧
    s.reader.Fits o s.nReady i
  sender : ∃ j ≤ o.buffermultiplier, s.sender.readHere = j * o.packetSize ∧
    s.sender.Fits o s.nReady s.reading j
  whole : o.packetSize ∣ s.rest.length
  /-- What was sent and announced, against the file. -/
  early : ¬ s.reader.Late → s.emitted.length + s.nReady + s.reader.unannounced o +
    s.rest.length / o.packetSize = o.total + s.sender.stillCounted
  late : s.reader.Late → o.total + s.sender.stillCounted < s.emitted.length + s.nReady
  reading : s.reading = false → s.reader.pos = .returned
  finished : s.reader.pos = .endOfFile → s.rest = []

variable {o} {s t : Tool} {i j n : ℕ}

/-- While the reading thread runs, `OPTS_READING` is set. -/
theorem Inv.not_reading (h : o.Inv s) (hpos : s.reader.pos ≠ .returned) : s.reading ≠ false :=
  fun hr => hpos (h.reading hr)

/-- The reading thread waits, or takes what is free up to the end of the ring. -/
theorem Inv.readerTest (h : o.Inv s) (hpos : s.reader.pos = .woken) :
    o.Inv (o.readerTest s) := by
  obtain ⟨i, hi, hhere, hok⟩ := h.reader
  obtain ⟨hstart, hready⟩ : s.reader.toStart = false ∧ s.nReady ≤ o.buffermultiplier := by
    simpa [Reader.Fits, hpos] using hok
  have hearly := h.early (by simp [Reader.Late, hpos])
  have hreading := h.not_reading (by simp [hpos])
  simp only [Reader.unannounced, hpos] at hearly
  unfold Options.readerTest
  simp only
  split
  · refine ⟨⟨i, hi, hhere, ⟨hstart, hready⟩⟩, h.sender, h.whole, fun _ => hearly,
      fun hl => ?_, fun hr => absurd hr hreading, fun he => by cases he⟩
    simp [Reader.Late] at hl
  · rename_i hroom
    refine ⟨⟨i, hi, hhere, ?_⟩, h.sender, h.whole, fun _ => hearly, fun hl => ?_,
      fun hr => absurd hr hreading, fun he => by cases he⟩
    · simp only [Reader.Fits, hhere, clip_eq]
      split
      · exact ⟨by simp; omega, by simp; omega, by simp; omega, .inl (by simp)⟩
      · exact ⟨by simp; omega, by simp; omega, by simp; omega, .inr (by simp; omega)⟩
    · simp [Reader.Late] at hl

/-- The sending thread waits, or takes what is announced up to the end of the ring. -/
theorem Inv.senderTest (h : o.Inv s) (hpos : s.sender.pos = .woken) :
    o.Inv (o.senderTest s) := by
  obtain ⟨j, hj, hhere, hok⟩ := h.sender
  obtain ⟨hstart, hin⟩ : s.sender.toStart = false ∧ j < o.buffermultiplier := by
    simpa [Sender.Fits, hpos] using hok
  have hearly := h.early
  have hlate := h.late
  simp only [Sender.stillCounted, hpos] at hearly hlate
  unfold Options.senderTest
  simp only
  split
  · exact ⟨h.reader, ⟨j, hj, hhere, ⟨hstart, hin⟩⟩, h.whole, hearly, hlate, h.reading,
      h.finished⟩
  · refine ⟨h.reader, ⟨j, hj, hhere, ?_⟩, h.whole, hearly, hlate, h.reading, h.finished⟩
    simp only [Sender.Fits, hhere, clip_eq]
    split
    · exact ⟨by simp; omega, by simp, by simp; omega, by simp; omega, .inl (by simp)⟩
    · exact ⟨by simp; omega, by simp, by simp, by simp; omega, .inr (by simp; omega)⟩

/-- The reading thread announces what it has read. -/
theorem Inv.readerTop (h : o.Inv s) (hpos : s.reader.pos = .top) :
    o.Inv (o.readerTop s) := by
  obtain ⟨i, hi, hhere, hok⟩ := h.reader
  obtain ⟨k, herr, hroom, hwrap⟩ : ∃ k, s.reader.err = k * o.packetSize ∧
      s.nReady + k ≤ o.buffermultiplier ∧
      (s.reader.toStart = true ∨ i + k < o.buffermultiplier) := by
    simpa [Reader.Fits, hpos] using hok
  have hk : s.reader.err / o.packetSize = k := by
    rw [herr, Nat.mul_div_cancel _ o.packetSize_pos]
  have hearly := h.early (by simp [Reader.Late, hpos])
  simp only [Reader.unannounced, hpos] at hearly
  -- the state in which the reading thread tests `n_ready`
  let here := if s.reader.toStart then 0 else s.reader.writeHere + s.reader.err
  let m : Tool := { s with
    nReady := s.nReady + s.reader.err / o.packetSize
    reader := { s.reader with pos := .woken, writeHere := here, toStart := false }
    sender := if s.reader.err ≠ 0 then s.sender.signalled else s.sender }
  suffices hm : o.Inv m from hm.readerTest rfl
  have hreading := h.not_reading (by simp [hpos])
  refine ⟨?_, ?_, h.whole, fun _ => ?_, fun hl => ?_, fun hr => absurd hr hreading,
    fun he => by cases he⟩
  · show ∃ i < o.buffermultiplier, here = i * o.packetSize ∧
      (false = false ∧ s.nReady + s.reader.err / o.packetSize ≤ o.buffermultiplier)
    rw [hk]
    by_cases hstart : s.reader.toStart = true
    · exact ⟨0, o.buffermultiplier_pos, by simp [here, hstart], rfl, hroom⟩
    · have hlt := hwrap.resolve_left hstart
      refine ⟨i + k, hlt, ?_, rfl, hroom⟩
      simp only [here, if_neg hstart]
      rw [hhere, herr, Nat.add_mul]
  · obtain ⟨j, hj, hread, hsend⟩ := h.sender
    have hmono := hsend.mono (Nat.le_add_right _ (s.reader.err / o.packetSize)) hreading
    by_cases herr : s.reader.err ≠ 0
    · exact ⟨j, hj, by simp [m, herr, hread], by
        simpa [m, herr, Sender.fits_signalled] using hmono⟩
    · exact ⟨j, hj, by simp [m, herr, hread], by simpa [m, herr] using hmono⟩
  · have hstill : m.sender.stillCounted = s.sender.stillCounted := by
      by_cases herr : s.reader.err ≠ 0 <;> simp [m, herr]
    rw [hstill]
    show s.emitted.length + (s.nReady + s.reader.err / o.packetSize) + 0 +
      s.rest.length / o.packetSize = _
    omega
  · simp [Reader.Late, m] at hl

/-- The sending thread takes back what it has sent, and ends when nothing is left. -/
theorem Inv.senderTop (h : o.Inv s) (hpos : s.sender.pos = .top) :
    o.Inv (o.senderTop s) := by
  obtain ⟨j, hj, hhere, hok⟩ := h.sender
  obtain ⟨hsent, hwrap⟩ : s.sender.doSend ≤ s.nReady ∧
      (s.sender.toStart = true ∨ j < o.buffermultiplier) := by
    simpa [Sender.Fits, hpos] using hok
  have hearly := h.early
  have hlate := h.late
  simp only [Sender.stillCounted, hpos] at hearly hlate
  obtain ⟨i, hi, hwrite, hfits⟩ := h.reader
  have hfits' := hfits.mono (Nat.sub_le s.nReady s.sender.doSend)
  have hwrapped : ∃ j < o.buffermultiplier,
      (if s.sender.toStart then 0 else s.sender.readHere) = j * o.packetSize := by
    by_cases hstart : s.sender.toStart = true
    · exact ⟨0, o.buffermultiplier_pos, by simp [hstart]⟩
    · exact ⟨j, hwrap.resolve_left hstart, by simp [hstart, hhere]⟩
  obtain ⟨j', hj', hhere'⟩ := hwrapped
  unfold Options.senderTop
  simp only
  split
  · rename_i hdone
    refine ⟨⟨i, hi, hwrite, hfits'⟩, ⟨j', hj'.le, hhere', hdone⟩, h.whole, fun he => ?_,
      fun hl => ?_, h.reading, h.finished⟩
    · have := hearly he
      show s.emitted.length + (s.nReady - s.sender.doSend) + s.reader.unannounced o +
        s.rest.length / o.packetSize = o.total + 0
      omega
    · have := hlate hl
      show o.total + 0 < s.emitted.length + (s.nReady - s.sender.doSend)
      omega
  · let m : Tool := { s with
      nReady := s.nReady - s.sender.doSend
      reader := s.reader.signalled
      sender := { s.sender with
        pos := .woken
        readHere := if s.sender.toStart then 0 else s.sender.readHere
        toStart := false } }
    suffices hm : o.Inv m from hm.senderTest rfl
    refine ⟨⟨i, hi, by simp [m, hwrite], by simpa [m, Reader.fits_signalled] using hfits'⟩,
      ⟨j', hj'.le, hhere', rfl, hj'⟩, h.whole, fun he => ?_, fun hl => ?_, fun hr => ?_,
      fun he => h.finished (Reader.endOfFile_signalled.mp he)⟩
    · have := hearly (by simpa [m] using he)
      show s.emitted.length + (s.nReady - s.sender.doSend) +
        s.reader.signalled.unannounced o + s.rest.length / o.packetSize = o.total + 0
      rw [Reader.unannounced_signalled]
      omega
    · have := hlate (by simpa [m] using hl)
      show o.total + 0 < s.emitted.length + (s.nReady - s.sender.doSend)
      omega
    · exact Reader.returned_signalled.mpr (h.reading hr)

/-- `read` moves packets from the file into the ring. -/
theorem Inv.fill (h : o.Inv s) (hpos : s.reader.pos = .reading) (hn : n ≤ s.reader.toread)
    (hrest : n * o.packetSize ≤ s.rest.length) : o.Inv (o.fill s n) := by
  obtain ⟨i, hi, hhere, hok⟩ := h.reader
  obtain ⟨-, hroom, -, hwrap⟩ : 0 < s.reader.toread ∧
      s.nReady + s.reader.toread ≤ o.buffermultiplier ∧
      i + s.reader.toread ≤ o.buffermultiplier ∧
      (s.reader.toStart = true ∨ i + s.reader.toread < o.buffermultiplier) := by
    simpa [Reader.Fits, hpos] using hok
  have hps := o.packetSize_pos
  obtain ⟨k, hk⟩ := h.whole
  have hnk : n ≤ k := by
    rw [hk, Nat.mul_comm] at hrest
    exact Nat.le_of_mul_le_mul_left hrest hps
  have hdrop : (s.rest.drop (n * o.packetSize)).length = o.packetSize * (k - n) := by
    rw [List.length_drop, hk, Nat.mul_comm n, ← Nat.mul_sub]
  have hearly := h.early (by simp [Reader.Late, hpos])
  simp only [Reader.unannounced, hpos] at hearly
  rw [hk, Nat.mul_div_cancel_left _ hps] at hearly
  refine ⟨⟨i, hi, hhere, n, rfl, (Nat.add_le_add_left hn _).trans hroom,
      hwrap.imp id fun _ => by omega⟩, h.sender, ?_, fun _ => ?_, fun hl => ?_,
    fun hr => absurd hr (h.not_reading (by simp [hpos])), fun he => by cases he⟩
  · show _ ∣ (s.rest.drop (n * o.packetSize)).length
    rw [hdrop]
    exact Nat.dvd_mul_right _ _
  · show s.emitted.length + s.nReady + n * o.packetSize / o.packetSize +
      (s.rest.drop (n * o.packetSize)).length / o.packetSize = _
    rw [hdrop, Nat.mul_div_cancel_left _ hps, Nat.mul_div_cancel _ hps]
    show _ = o.total + s.sender.stillCounted
    omega
  · simp [Reader.Late, Options.fill] at hl

/-- **At the end of the file packets are announced that do not exist.** -/
theorem Inv.endOfFile (h : o.Inv s) (hpos : s.reader.pos = .endOfFile) :
    o.Inv { s with
      nReady := s.nReady + s.reader.toread
      reader := { s.reader with pos := .leaving }
      sender := s.sender.signalled } := by
  obtain ⟨i, hi, hhere, hok⟩ := h.reader
  obtain ⟨hnew, hroom, -⟩ : 0 < s.reader.toread ∧
      s.nReady + s.reader.toread ≤ o.buffermultiplier ∧ _ := by
    simpa [Reader.Fits, hpos] using hok
  have hreading := h.not_reading (by simp [hpos])
  obtain ⟨j, hj, hread, hsend⟩ := h.sender
  have hmono := hsend.mono (Nat.le_add_right _ s.reader.toread) hreading
  refine ⟨⟨i, hi, hhere, hroom⟩, ⟨j, hj, by simp [hread], Sender.fits_signalled.mpr hmono⟩,
    h.whole, fun he => absurd (.inl rfl) he, fun _ => ?_, fun hr => absurd hr hreading,
    fun he => by cases he⟩
  have hearly := h.early (by simp [Reader.Late, hpos])
  simp only [Reader.unannounced, hpos, h.finished hpos, List.length_nil, Nat.zero_div]
    at hearly
  show o.total + s.sender.signalled.stillCounted <
    s.emitted.length + (s.nReady + s.reader.toread)
  rw [Sender.stillCounted_signalled]
  omega

/-- One packet is sent. -/
theorem Inv.emit (h : o.Inv s) (hpos : s.sender.pos = .sending)
    (hlt : s.sender.sending < s.sender.doSend) : o.Inv (o.emit s) := by
  obtain ⟨j, hj, hhere, hok⟩ := h.sender
  obtain ⟨hbatch, hle, hready, hend, hwrap⟩ : 0 < s.sender.doSend ∧
      s.sender.sending ≤ s.sender.doSend ∧ s.sender.doSend ≤ s.nReady ∧
      j + (s.sender.doSend - s.sender.sending) ≤ o.buffermultiplier ∧
      (s.sender.toStart = true ∨
        j + (s.sender.doSend - s.sender.sending) < o.buffermultiplier) := by
    simpa [Sender.Fits, hpos] using hok
  have hearly := h.early
  have hlate := h.late
  simp only [Sender.stillCounted, hpos] at hearly hlate
  refine ⟨h.reader, ⟨j + 1, by omega, ?_, ?_⟩, h.whole, fun he => ?_, fun hl => ?_,
    h.reading, h.finished⟩
  · show s.sender.readHere + o.packetSize = (j + 1) * o.packetSize
    rw [hhere, Nat.add_mul, Nat.one_mul]
  · simp only [Sender.Fits, Options.emit, hpos]
    exact ⟨hbatch, by omega, hready, by omega, hwrap.imp id fun _ => by omega⟩
  · have := hearly he
    simp only [Options.emit, Sender.stillCounted, hpos, List.length_append,
      List.length_singleton]
    omega
  · have := hlate hl
    simp only [Options.emit, Sender.stillCounted, hpos, List.length_append,
      List.length_singleton]
    omega

/-- **Every step keeps the invariant.** -/
theorem Inv.step {a : Action} (h : o.Inv s) (hstep : o.next s a = some t) : o.Inv t := by
  cases a with
  | readerTop =>
      obtain ⟨hpos, rfl⟩ := Option.ite_some_none_eq_some.mp hstep
      exact h.readerTop hpos
  | readerRecheck =>
      obtain ⟨hpos, rfl⟩ := Option.ite_some_none_eq_some.mp hstep
      exact h.readerTest hpos
  | read n =>
      obtain ⟨⟨hpos, -, hn, hrest, -⟩, rfl⟩ := Option.ite_some_none_eq_some.mp hstep
      exact h.fill hpos hn hrest
  | readNothing =>
      obtain ⟨⟨hpos, hrest⟩, rfl⟩ := Option.ite_some_none_eq_some.mp hstep
      obtain ⟨i, hi, hhere, hok⟩ := h.reader
      have hearly := h.early (by simp [Reader.Late, hpos])
      refine ⟨⟨i, hi, hhere, by simpa [Reader.Fits, hpos] using hok⟩, h.sender, h.whole,
        fun _ => by simpa [Reader.unannounced, hpos] using hearly, fun hl => ?_,
        fun hr => absurd hr (h.not_reading (by simp [hpos])), fun _ => hrest⟩
      simp [Reader.Late] at hl
  | endOfFile =>
      obtain ⟨hpos, rfl⟩ := Option.ite_some_none_eq_some.mp hstep
      exact h.endOfFile hpos
  | leave =>
      obtain ⟨hpos, rfl⟩ := Option.ite_some_none_eq_some.mp hstep
      obtain ⟨i, hi, hhere, hok⟩ := h.reader
      obtain ⟨j, hj, hread, hsend⟩ := h.sender
      refine ⟨⟨i, hi, hhere, by simpa [Reader.Fits, hpos] using hok⟩, ⟨j, hj, hread, ?_⟩,
        h.whole, fun he => absurd (.inr rfl) he, fun _ => h.late (.inl hpos), fun _ => rfl,
        fun he => by cases he⟩
      have hreading := h.not_reading (by simp [hpos])
      unfold Sender.Fits at hsend ⊢
      cases hd : s.sender.pos <;> simp only [hd] at hsend ⊢
      · exact hsend
      · exact hsend
      · exact hsend
      · exact hsend
      · exact absurd hsend.2 hreading
  | senderTop =>
      obtain ⟨hpos, rfl⟩ := Option.ite_some_none_eq_some.mp hstep
      exact h.senderTop hpos
  | senderRecheck =>
      obtain ⟨hpos, rfl⟩ := Option.ite_some_none_eq_some.mp hstep
      exact h.senderTest hpos
  | send =>
      obtain ⟨⟨hpos, hlt⟩, rfl⟩ := Option.ite_some_none_eq_some.mp hstep
      exact h.emit hpos hlt
  | sent =>
      obtain ⟨⟨hpos, hlt⟩, rfl⟩ := Option.ite_some_none_eq_some.mp hstep
      obtain ⟨j, hj, hhere, hok⟩ := h.sender
      obtain ⟨-, hle, hready, -, hwrap⟩ : _ ∧ s.sender.sending ≤ s.sender.doSend ∧
          s.sender.doSend ≤ s.nReady ∧ _ ∧
          (s.sender.toStart = true ∨
            j + (s.sender.doSend - s.sender.sending) < o.buffermultiplier) := by
        simpa [Sender.Fits, hpos] using hok
      have hall : s.sender.sending = s.sender.doSend := by omega
      have hearly := h.early
      have hlate := h.late
      simp only [Sender.stillCounted, hpos, hall] at hearly hlate
      exact ⟨h.reader, ⟨j, hj, hhere, hready, hwrap.imp id fun _ => by omega⟩, h.whole,
        hearly, hlate, h.reading, h.finished⟩

theorem IsStart.inv (h : o.IsStart s) : o.Inv s where
  reader := ⟨0, o.buffermultiplier_pos, by simp [h.reader], by
    simp only [Reader.Fits, h.reader]
    exact ⟨0, by simp, by simp [h.nReady], .inr (by simpa using o.buffermultiplier_pos)⟩⟩
  sender := ⟨0, Nat.zero_le _, by simp [h.sender], by
    simp only [Sender.Fits, h.sender]
    exact ⟨Nat.zero_le _, .inr o.buffermultiplier_pos⟩⟩
  whole := h.rest ▸ o.whole
  early _ := by
    simp [h.emitted, h.nReady, h.reader, h.rest, h.sender, Reader.unannounced,
      Sender.stillCounted, total]
  late hl := by simp [Reader.Late, h.reader] at hl
  reading hr := by simp [h.reading] at hr
  finished he := by simp [h.reader] at he

/-- The invariant of all runs. -/
theorem inv_of_reachable (h : o.system.Reachable s) : o.Inv s := by
  apply h.invariant
  · intro s hstart
    exact IsStart.inv hstart
  · intro s a t hinv hstep
    exact hinv.step hstep

/-- **Whenever both threads have ended, more was sent than the file has.** -/
theorem total_lt_of_ended (h : o.system.Reachable s) (hended : s.Ended) :
    o.total < s.emitted.length := by
  have hinv := inv_of_reachable h
  obtain ⟨j, -, -, hok⟩ := hinv.sender
  obtain ⟨hready, -⟩ : s.nReady = 0 ∧ s.reading = false := by
    simpa [Sender.Fits, hended.2] using hok
  have hlate := hinv.late (.inr hended.1)
  simp only [Sender.stillCounted, hended.2] at hlate
  omega

/-! ## What can happen -/

theorem signalled_of_ne {r : Reader} (h : r.pos ≠ .waiting) : r.signalled = r := if_neg h

@[simp] theorem signalled_signalled (r : Reader) : r.signalled.signalled = r.signalled := by
  by_cases h : r.pos = .waiting
  · exact signalled_of_ne (by simp [Reader.signalled, h])
  · rw [signalled_of_ne h, signalled_of_ne h]

/-- The sending thread gets through its batch. -/
theorem exists_top (d : ℕ) : ∀ {s : Tool}, o.system.Reachable s → s.sender.pos = .sending →
    s.sender.doSend = s.sender.sending + d →
    ∃ t, o.system.Reachable t ∧ t.sender.pos = .top ∧
      t.sender.doSend = s.sender.doSend ∧ t.nReady = s.nReady ∧ t.reading = s.reading ∧
      t.reader = s.reader ∧ t.rest = s.rest := by
  induction d with
  | zero =>
      intro s h hpos hleft
      refine ⟨{ s with sender := { s.sender with pos := .top } },
        h.step (a := .sent) ?_, rfl, rfl, rfl, rfl, rfl, rfl⟩
      exact if_pos ⟨hpos, by omega⟩
  | succ d ih =>
      intro s h hpos hleft
      have hstep : o.system.Reachable (o.emit s) :=
        h.step (a := .send) (if_pos ⟨hpos, by omega⟩)
      have hleft' : (o.emit s).sender.doSend = (o.emit s).sender.sending + d := by
        show s.sender.doSend = s.sender.sending + 1 + d
        omega
      exact ih (s := o.emit s) hstep hpos hleft'

/-- The sending thread sends all that is announced while the other does nothing. -/
theorem exists_drained (n : ℕ) : ∀ {s : Tool}, o.system.Reachable s →
    s.sender.pos = .sending → s.sender.sending = 0 → s.nReady ≤ n →
    ∃ t, o.system.Reachable t ∧ t.nReady = 0 ∧ t.reading = s.reading ∧
      t.reader = s.reader.signalled ∧ t.rest = s.rest ∧
      t.sender.pos = if s.reading then .waiting else .returned := by
  induction n with
  | zero =>
      intro s h hpos _ hn
      obtain ⟨j, -, -, hok⟩ := (inv_of_reachable h).sender
      simp only [Sender.Fits, hpos] at hok
      omega
  | succ n ih =>
      intro s h hpos hfirst hn
      obtain ⟨j, -, -, hok⟩ := (inv_of_reachable h).sender
      simp only [Sender.Fits, hpos] at hok
      obtain ⟨t, ht, htop, hbatch, hready, hreading, hreader, hrest⟩ :=
        exists_top s.sender.doSend h hpos (by omega)
      have hnext : o.system.Reachable (o.senderTop t) :=
        ht.step (a := .senderTop) (if_pos htop)
      by_cases hleft : t.nReady - t.sender.doSend = 0
      · cases hr : s.reading with
        | false =>
            have hret : s.reader.pos = .returned := (inv_of_reachable h).reading hr
            refine ⟨o.senderTop t, hnext, ?_, ?_, ?_, ?_, ?_⟩
            all_goals simp [Options.senderTop, hleft, hreading, hr, hreader, hrest]
            exact (signalled_of_ne (by simp [hret])).symm
        | true =>
            refine ⟨o.senderTop t, hnext, ?_, ?_, ?_, ?_, ?_⟩
            all_goals
              simp [Options.senderTop, Options.senderTest, hleft, hreading, hr, hreader, hrest]
      · have hagain := ih hnext
          (by simp [Options.senderTop, Options.senderTest, hleft])
          (by simp [Options.senderTop, Options.senderTest, hleft])
          (by simp [Options.senderTop, Options.senderTest, hleft]; omega)
        simpa [Options.senderTop, Options.senderTest, hleft, hreading, hreader, hrest]
          using hagain

/-- The sending thread, once woken, sends all that is announced. -/
theorem exists_drained_of_woken (h : o.system.Reachable s) (hpos : s.sender.pos = .woken)
    (hready : 0 < s.nReady) :
    ∃ t, o.system.Reachable t ∧ t.nReady = 0 ∧ t.reading = s.reading ∧
      t.reader = s.reader.signalled ∧ t.rest = s.rest ∧
      t.sender.pos = if s.reading then .waiting else .returned := by
  have hstep : o.system.Reachable (o.senderTest s) := h.step (a := .senderRecheck) (if_pos hpos)
  have hdrained := exists_drained s.nReady hstep (by simp [Options.senderTest, hready.ne'])
    (by simp [Options.senderTest, hready.ne']) (by simp [Options.senderTest, hready.ne'])
  simpa [Options.senderTest, hready.ne'] using hdrained

section Waiting

@[simp] theorem readerTest_nReady : (o.readerTest s).nReady = s.nReady := by
  unfold Options.readerTest
  simp only
  split <;> rfl

@[simp] theorem readerTest_reading : (o.readerTest s).reading = s.reading := by
  unfold Options.readerTest
  simp only
  split <;> rfl

@[simp] theorem readerTest_sender : (o.readerTest s).sender = s.sender := by
  unfold Options.readerTest
  simp only
  split <;> rfl

@[simp] theorem readerTest_rest : (o.readerTest s).rest = s.rest := by
  unfold Options.readerTest
  simp only
  split <;> rfl

/-- The reading thread sleeps exactly when the ring is full. -/
theorem readerTest_pos : (o.readerTest s).reader.pos =
    if o.buffermultiplier ≤ s.nReady then .waiting else .reading := by
  unfold Options.readerTest
  simp only [Nat.sub_eq_zero_iff_le]
  split <;> rfl

end Waiting

variable (o) in
/-- The ring is empty, one thread is about to read `k` packets and the other sleeps. -/
structure Idle (k : ℕ) (s : Tool) : Prop where
  reachable : o.system.Reachable s
  nReady : s.nReady = 0
  reading : s.reading = true
  reader : s.reader.pos = .reading
  sender : s.sender.pos = .waiting
  rest : s.rest.length = k * o.packetSize

variable (o) in
/-- Both threads start, and the ring is zero. -/
def started : Tool where
  nReady := 0
  reading := true
  buffer := fun _ => 0
  reader := ⟨.top, 0, 0, false, 0⟩
  sender := ⟨.top, 0, 0, false, 0⟩
  rest := o.file
  emitted := []
  unsent := []
  overwritten := false

variable (o) in
theorem reachable_started : o.system.Reachable (started o) :=
  .init ⟨rfl, rfl, rfl, rfl, rfl, rfl, rfl, rfl⟩

/-- A file of two packets of one byte, and a ring of two slots. -/
def twoSlots : Options where
  packetSize := 1
  buffermultiplier := 2
  file := [65, 66]
  packetSize_pos := one_pos
  packetSize_le := by omega
  buffermultiplier_pos := Nat.two_pos
  whole := one_dvd _

variable (o) in
/-- The sending thread comes first. -/
theorem exists_idle : ∃ s, Idle o o.total s := by
  have hsleeps : o.system.Reachable (o.senderTop (started o)) :=
    (reachable_started o).step (a := .senderTop) rfl
  have hreads : o.system.Reachable (o.readerTop (o.senderTop (started o))) :=
    hsleeps.step (a := .readerTop) rfl
  have hpos : (o.readerTop (o.senderTop (started o))).reader.pos = .reading := by
    have hroom : ¬ o.buffermultiplier ≤ 0 := by
      have := o.buffermultiplier_pos
      omega
    rw [Options.readerTop, readerTest_pos]
    simp [Options.senderTop, Options.senderTest, Reader.signalled, started, hroom]
  refine ⟨_, hreads, ?_, ?_, hpos, ?_, ?_⟩
  · simp [Options.readerTop, Options.senderTop, Options.senderTest, Reader.signalled, started]
  · simp [Options.readerTop, Options.senderTop, Options.senderTest, started]
  · simp [Options.readerTop, Options.senderTop, Options.senderTest, Reader.signalled, started]
  · simp [Options.readerTop, Options.senderTop, Options.senderTest, started, total,
      Nat.div_mul_cancel o.whole]

/-- One packet is read. -/
theorem reachable_fill_one (h : o.system.Reachable s) (hpos : s.reader.pos = .reading)
    (hrest : o.packetSize ≤ s.rest.length) : o.system.Reachable (o.fill s 1) := by
  obtain ⟨i, -, -, hfits⟩ := (inv_of_reachable h).reader
  simp only [Reader.Fits, hpos] at hfits
  refine h.step (a := .read 1) (if_pos ⟨hpos, one_pos, hfits.1, ?_, ?_⟩)
  · rwa [Nat.one_mul]
  · have hle := o.packetSize_le
    unfold maxRead
    omega

/-- One packet goes through the ring. -/
theorem Idle.round {k : ℕ} (h : Idle o (k + 1) s) : ∃ t, Idle o k t := by
  have hps := o.packetSize_pos
  have hread : o.system.Reachable (o.fill s 1) := by
    refine reachable_fill_one h.reachable h.reader ?_
    rw [h.rest, Nat.add_mul, Nat.one_mul]
    exact Nat.le_add_left _ _
  have hannounced : o.system.Reachable (o.readerTop (o.fill s 1)) :=
    hread.step (a := .readerTop) rfl
  have hnReady : (o.readerTop (o.fill s 1)).nReady = 1 := by
    simp [Options.readerTop, Options.fill, h.nReady, Nat.div_self hps]
  have hwoken : (o.readerTop (o.fill s 1)).sender.pos = .woken := by
    simp [Options.readerTop, Options.fill, hps.ne', Sender.signalled, h.sender]
  obtain ⟨t, ht, hready, hreading, hreader, hrest, hsender⟩ :=
    exists_drained_of_woken hannounced hwoken (by omega)
  have htest : (o.readerTop (o.fill s 1)).reading = true := by
    simp [Options.readerTop, Options.fill, h.reading]
  rw [htest] at hreading hsender
  have hlength : t.rest.length = k * o.packetSize := by
    rw [hrest]
    simp only [Options.readerTop, Options.fill, readerTest_rest, List.length_drop, h.rest]
    rw [Nat.add_mul]
    omega
  -- the reading thread may have found the ring full
  have hpos : (o.readerTop (o.fill s 1)).reader.pos = .waiting ∨
      (o.readerTop (o.fill s 1)).reader.pos = .reading := by
    rw [Options.readerTop, readerTest_pos]
    exact ite_eq_or_eq _ _ _
  obtain hpos | hpos := hpos
  · have hwaits : t.reader.pos = .woken := by
      rw [hreader]
      simp [Reader.signalled, hpos]
    refine ⟨o.readerTest t, ht.step (a := .readerRecheck) (if_pos hwaits), ?_, ?_, ?_, ?_, ?_⟩
    · simpa using hready
    · simpa using hreading
    · have hroom : ¬ o.buffermultiplier ≤ t.nReady := by
        have := o.buffermultiplier_pos
        omega
      rw [readerTest_pos, if_neg hroom]
    · simpa using hsender
    · simpa using hlength
  · refine ⟨t, ht, hready, hreading, ?_, hsender, hlength⟩
    rw [hreader, signalled_of_ne (by simp [hpos]), hpos]

variable (o) in
/-- The last packet is read and sent. -/
theorem exists_finished : ∃ s, Idle o 0 s := by
  have hrun : ∀ k, ∀ s, Idle o k s → ∃ t, Idle o 0 t := by
    intro k
    induction k with
    | zero => exact fun s h => ⟨s, h⟩
    | succ k ih =>
        intro s h
        obtain ⟨t, ht⟩ := h.round
        exact ih t ht
  obtain ⟨s, hs⟩ := exists_idle o
  exact hrun o.total s hs

/-- `start_reading` announces the end of the file. -/
theorem report (h : o.system.Reachable s) (hpos : s.reader.pos = .endOfFile) :
    o.system.Reachable { s with
      nReady := s.nReady + s.reader.toread
      reader := { s.reader with pos := .leaving }
      sender := s.sender.signalled } :=
  h.step (a := .endOfFile) (if_pos hpos)

/-- `start_reading` clears `OPTS_READING` and returns. -/
theorem leave (h : o.system.Reachable s) (hpos : s.reader.pos = .leaving) :
    o.system.Reachable
      { s with reading := false, reader := { s.reader with pos := .returned } } :=
  h.step (a := .leave) (if_pos hpos)

variable (o) in
/-- `start_reading` has reported the end of the file and woken the sending thread. -/
theorem exists_reported : ∃ s, o.system.Reachable s ∧ 0 < s.nReady ∧ s.reading = true ∧
    s.reader.pos = .leaving ∧ s.sender.pos = .woken := by
  obtain ⟨s, h⟩ := exists_finished o
  obtain ⟨i, -, -, hfits⟩ := (inv_of_reachable h.reachable).reader
  simp only [Reader.Fits, h.reader] at hfits
  have hrest : s.rest = [] := by simpa using h.rest
  let last : Tool := { s with reader := { s.reader with pos := .endOfFile, err := 0 } }
  have hend : o.system.Reachable last :=
    h.reachable.step (a := .readNothing) (if_pos ⟨h.reader, hrest⟩)
  refine ⟨_, report hend rfl, ?_, h.reading, rfl, ?_⟩
  · show 0 < s.nReady + s.reader.toread
    omega
  · simp [last, Sender.signalled, h.sender]

variable (o) in
/-- **A run that ends.** -/
theorem exists_ended : ∃ s, o.system.Reachable s ∧ s.Ended := by
  obtain ⟨s, hs, hready, -, hreader, hsender⟩ := exists_reported o
  obtain ⟨t, ht, -, -, hreturned, -, hended⟩ :=
    exists_drained_of_woken (leave hs hreader) hsender hready
  refine ⟨t, ht, ?_, hended⟩
  rw [hreturned, signalled_of_ne (by simp)]

variable (o) in
/-- **A run that does not end**: the sending thread has sent everything and sleeps
when `OPTS_READING` is cleared, and nobody signals any more. -/
theorem exists_stalled : ∃ s, o.system.Reachable s ∧ (∀ a, o.next s a = none) ∧ ¬ s.Ended := by
  obtain ⟨s, hs, hready, hreading, hreader, hsender⟩ := exists_reported o
  obtain ⟨t, ht, -, -, hleaving, -, hwaits⟩ := exists_drained_of_woken hs hsender hready
  have hpos : t.reader.pos = .leaving := by
    rw [hleaving, signalled_of_ne (by simp [hreader]), hreader]
  rw [hreading] at hwaits
  refine ⟨_, leave ht hpos, fun a => ?_, fun hended => ?_⟩
  · cases a <;> simp [next, hwaits]
  · exact absurd (hwaits.symm.trans hended.2) (by simp)

theorem overwritten_fill (h : s.reader.writeHere ∈ s.unsent) :
    (o.fill s 1).overwritten = true := by
  simp [Options.fill, slots, h]

/-- **A short read overwrites what was not sent**: the reading thread has decided to
wrap before it read up to the end of the ring, and wraps after its first packet. -/
theorem exists_overwritten (hring : 2 ≤ o.buffermultiplier) (hfile : 2 ≤ o.total) :
    ∃ s, o.system.Reachable s ∧ s.overwritten = true := by
  have hclip : ∀ n, o.clip 0 n = if o.buffermultiplier ≤ n then (true, o.buffermultiplier)
      else (false, n) := fun n => by simpa using o.clip_eq 0 n
  have hlength : 2 * o.packetSize ≤ o.file.length :=
    (Nat.mul_le_mul_right _ hfile).trans (Nat.div_mul_le_self _ _)
  -- the first batch is the whole ring, and one packet is read of it
  let first : Tool := { started o with reader := ⟨.reading, 0, o.buffermultiplier, true, 0⟩ }
  have hfirst : o.readerTop (started o) = first := by
    have hroom : o.buffermultiplier ≠ 0 := by omega
    simp [Options.readerTop, Options.readerTest, started, hclip, hroom, first]
  have hbegun : o.system.Reachable first :=
    hfirst ▸ (reachable_started o).step (a := .readerTop) rfl
  have hread : o.system.Reachable (o.fill first 1) :=
    reachable_fill_one hbegun rfl (show o.packetSize ≤ o.file.length by omega)
  -- the second one starts at the first slot again
  have hagain : (o.readerTop (o.fill first 1)).reader.pos = .reading ∧
      (o.readerTop (o.fill first 1)).reader.writeHere = 0 ∧
      (o.readerTop (o.fill first 1)).unsent = [0] := by
    have hroom : ¬ o.buffermultiplier ≤ 1 := by omega
    simp [Options.readerTop, Options.readerTest, Options.fill, first, started, slots,
      Nat.div_self o.packetSize_pos, Nat.sub_eq_zero_iff_le, hroom]
  have hrest : (o.readerTop (o.fill first 1)).rest.length = o.file.length - o.packetSize := by
    simp [Options.readerTop, Options.fill, first, started]
  have hlast := reachable_fill_one (hread.step (a := .readerTop) rfl) hagain.1
    (by rw [hrest]; omega)
  refine ⟨_, hlast, overwritten_fill ?_⟩
  rw [hagain.2.1, hagain.2.2]
  exact List.mem_singleton_self 0

theorem exists_overwritten_twoSlots : 2 ≤ twoSlots.buffermultiplier ∧ 2 ≤ twoSlots.total ∧
    ∃ s, twoSlots.system.Reachable s ∧ s.overwritten = true :=
  ⟨by decide, by decide, exists_overwritten (by decide) (by decide)⟩

/-! ## The tool is not correct -/

@[simp] theorem length_packets : o.packets.length = o.total := by
  simp [packets]

/-- **The tool is correct for no file and no ring**: a run that ends has sent more
packets than the file has. -/
theorem not_correct (o : Options) : ¬ o.Correct := by
  intro h
  obtain ⟨s, hs, hended⟩ := exists_ended o
  have hlt := total_lt_of_ended hs hended
  rw [h.emits s hs hended, length_packets] at hlt
  exact Nat.lt_irrefl _ hlt

/-- A file of one packet of one byte, and a ring of one slot. -/
def single : Options where
  packetSize := 1
  buffermultiplier := 1
  file := [65]
  packetSize_pos := one_pos
  packetSize_le := by omega
  buffermultiplier_pos := one_pos
  whole := one_dvd _

/-- The packet is read, announced, sent and taken back; the reading thread then wants
one more packet, reads the end of the file, and announces it. -/
def phantom : List Action :=
  [.readerTop, .read 1, .readerTop, .senderTop, .send, .sent, .senderTop, .readerRecheck,
    .readNothing, .endOfFile, .leave, .senderRecheck, .send, .sent, .senderTop]

/-- **One packet is sent twice.** -/
theorem single_not_correct : single.packets = [[65]] ∧
    (System.runFrom single.next (started single) phantom).map
      (fun s => (s.emitted, s.reader.pos, s.sender.pos)) =
        some ([[65], [65]], .returned, .returned) ∧
    ¬ single.Correct := by
  have hpackets : single.packets = [[65]] := by decide
  have hrun : (System.runFrom single.next (started single) phantom).map
      (fun s => (s.emitted, s.reader.pos, s.sender.pos)) =
        some ([[65], [65]], .returned, .returned) := by decide +kernel
  refine ⟨hpackets, hrun, fun h => ?_⟩
  obtain ⟨s, hs, hfinal⟩ := Option.map_eq_some_iff.mp hrun
  have hended : s.Ended := ⟨congrArg (·.2.1) hfinal, congrArg (·.2.2) hfinal⟩
  have hemitted : s.emitted = [[65], [65]] := congrArg (·.1) hfinal
  have hemits := h.emits s ((reachable_started single).runFrom hs) hended
  rw [hpackets, hemitted] at hemits
  exact absurd hemits (by decide)

end Options

end VlbiStreamer.MorphToNet
