import Axon.Core.Tpipe
import Axon.Core.BufferRefinement
import Mathlib.Data.Fintype.Basic
import Mathlib.Tactic.FinCases

/-!
# Reading a pipe does not depend on how the stream is cut up

The framing loop of `on_ev_read` is the frame rule applied until no frame is complete
(`frameLoop_spec`), on whatever the read buffer holds.  Hence one read event extends the stream a
side has received by the bytes read and leaves the side as the reference reader `readFrames` would
(`Reading.onEvRead`), and a sequence of events does so for the concatenation.

The read buffer stays small: what is kept between two events is shorter than one frame.
-/

namespace Axon

open Library

namespace TpipeT

/-- No read buffer grows beyond this: the longest incomplete frame, one read, and the 128 bytes
`prepare` may add. -/
def rbufBound : ℕ := 100000

/-- Memory that shows a list agrees with it byte by byte. -/
lemma byteAt_of_window {p : ℕ → UInt8} {q : List UInt8} (h : window p 0 q.length = q) {i : ℕ}
    (hi : i < q.length) : p i = byteAt q i := by
  have hd : (window p 0 q.length).drop i = q.drop i := by rw [h]
  rw [drop_window p 0 (le_of_lt hi), Nat.zero_add] at hd
  obtain ⟨r, hr⟩ := Nat.exists_eq_add_of_lt hi
  rw [show q.length - i = r + 1 by omega, window, List.drop_eq_getElem_cons hi] at hd
  have := (List.cons.inj hd).1
  simp [byteAt, List.getElem?_eq_getElem hi, this]

/-- The header at `data()` is the header of the stream. -/
lemma unpackHeader_of_window {p : ℕ → UInt8} {q : List UInt8} (h : window p 0 q.length = q)
    (hq : msgHeaderLen < q.length) : unpackHeader p = unpackHeader (byteAt q) := by
  simp only [msgHeaderLen] at hq
  rw [unpackHeader, unpackHeader, byteAt_of_window h (by omega), byteAt_of_window h (by omega),
    byteAt_of_window h (by omega), byteAt_of_window h (by omega)]

section Rounds

variable {os : Libc} {buf : BufferT} {q : List UInt8} (hr : buf.Refines q)

include hr

/-- **A round that finds no frame** ends the loop: at most a header is there, or the payload is not
complete. -/
lemma frameLoop_of_none (hstep : frameStep q = none) (fuel : ℕ) :
    frameLoop os (fuel + 1) buf q.length = .ok ([], buf) := by
  rw [frameLoop]
  by_cases hshort : q.length ≤ msgHeaderLen
  · rw [if_pos hshort]
  · have hne : q ≠ [] := by
      rintro rfl
      simp [msgHeaderLen] at hshort
    obtain ⟨p, hp, hw⟩ := BufferT.data_of_refines hr hne
    have hwait : q.length - msgHeaderLen < (unpackHeader (byteAt q)).plLen.toNat := by
      by_contra hfull
      simp [frameStep, hshort, hfull] at hstep
    rw [if_neg hshort, hp]
    dsimp only
    rw [unpackHeader_of_window hw (not_le.mp hshort), if_pos hwait]

/-- **A round that finds a frame** calls back and goes on with the rest. -/
lemma frameLoop_of_some (ht : os.Total) (hb : buf.Bounded rbufBound) {f : Frame}
    {rest : List UInt8} (hstep : frameStep q = some (f, rest)) :
    ∃ buf', buf'.Refines rest ∧ buf'.Bounded rbufBound ∧ ∀ fuel,
      frameLoop os (fuel + 1) buf q.length = (do
        let (more, buf) ← frameLoop os fuel buf' rest.length
        pure (f :: more, buf)) := by
  obtain ⟨hroom, hlen, hhead, hpay, rfl⟩ := frameStep_eq_some hstep
  have hne : q ≠ [] := List.ne_nil_of_length_pos (by omega)
  obtain ⟨p, hp, hw⟩ := BufferT.data_of_refines hr hne
  obtain ⟨b₁, r₁, h₁, hr₁, hb₁⟩ := BufferT.pop_total ht msgHeaderLen hr hb
  have hne₁ : q.drop msgHeaderLen ≠ [] := by
    simpa [List.drop_eq_nil_iff] using hlen
  obtain ⟨p₁, hp₁, hw₁⟩ := BufferT.data_of_refines hr₁ hne₁
  obtain ⟨b₂, r₂, h₂, hr₂, hb₂⟩ := BufferT.pop_total ht f.1.plLen.toNat hr₁ hb₁
  rw [List.drop_drop] at hr₂
  have hpayload : window p₁ 0 f.1.plLen.toNat = f.2 := by
    have hle : f.1.plLen.toNat ≤ (q.drop msgHeaderLen).length := by
      rw [List.length_drop]
      omega
    rw [hpay, ← take_window p₁ 0 hle, hw₁]
  have hremain : q.length - msgHeaderLen - f.1.plLen.toNat =
      (q.drop (msgHeaderLen + f.1.plLen.toNat)).length := by
    rw [List.length_drop]
    omega
  refine ⟨b₂, hr₂, hb₂, fun fuel => ?_⟩
  rw [frameLoop, if_neg (not_le.mpr hlen), hp]
  dsimp only
  rw [unpackHeader_of_window hw hlen, ← hhead, if_neg (by omega), h₁, ok_bind]
  dsimp only
  rw [hp₁]
  dsimp only
  rw [h₂, ok_bind, hpayload, hremain]

end Rounds

/-- **The framing loop is the frame rule, repeated.** -/
lemma frameLoop_spec {os : Libc} (ht : os.Total) : ∀ (fuel : ℕ) {buf : BufferT} {q : List UInt8},
    buf.Refines q → buf.Bounded rbufBound → q.length ≤ fuel →
    ∃ buf', frameLoop os fuel buf q.length = .ok ((readFrames q).1, buf') ∧
      buf'.Refines (readFrames q).2 ∧ buf'.Bounded rbufBound := by
  intro fuel
  induction fuel with
  | zero =>
      intro buf q hr hb hfuel
      obtain rfl := List.length_eq_zero_iff.mp (Nat.le_zero.mp hfuel)
      exact ⟨buf, rfl, hr, hb⟩
  | succ fuel ih =>
      intro buf q hr hb hfuel
      cases hstep : frameStep q with
      | none =>
          rw [frameLoop_of_none hr hstep, readFrames, frameExtractor.drain_of_none hstep]
          exact ⟨buf, rfl, hr, hb⟩
      | some step =>
          obtain ⟨f, rest⟩ := step
          have hshrinks := frameExtractor.shrinks hstep
          obtain ⟨b₁, hr₁, hb₁, hloop⟩ := frameLoop_of_some hr ht hb hstep
          obtain ⟨b₂, hmore, hr₂, hb₂⟩ := ih hr₁ hb₁ (by omega)
          rw [hloop, hmore, readFrames.eq_def q, frameExtractor.drain_of_some hstep]
          exact ⟨b₂, rfl, hr₂, hb₂⟩

/-- The side `side` has received the stream `B`: it has called back for the frames of `B` and holds
the bytes the reference reader leaves. -/
structure Reading (t : TpipeT) (side : Fin 2) (B : List UInt8) : Prop where
  cbRead : (t.pinfo side).cbRead = true
  rbuf : (t.pinfo side).rbuf.Refines (readFrames B).2
  bounded : (t.pinfo side).rbuf.Bounded rbufBound
  callbacks : (t.pinfo side).callbacks = (readFrames B).1

/-- The read buffer of a side can always be prepared for the next read. -/
lemma Reading.prepare {os : Libc} (ht : os.Total) {t : TpipeT} {side : Fin 2} {B : List UInt8}
    (h : Reading t side B) :
    ∃ buf r, (t.pinfo side).rbuf.prepare os maxProtoLen = .ok (buf, r) ∧
      buf.Refines (readFrames B).2 ∧ buf.Bounded rbufBound ∧
      buf.end_ + maxProtoLen ≤ buf.allocSize := by
  have hrest := length_readFrames_rest B
  have hlen := h.rbuf.length_eq
  refine BufferT.prepare_total ht h.rbuf h.bounded ?_ (by decide)
  simp only [maxProtoLen, rbufBound]
  omega

/-- The outcome of a `::read` that does not fail: some bytes, or `EAGAIN`. -/
def readOutcome : Option (List UInt8) → ReadResult
  | some bytes => .data bytes
  | none => .again

/-- What a read event changes: the read buffer of its side, and the callbacks made there. -/
def setReader (t : TpipeT) (side : Fin 2) (rbuf : BufferT) (callbacks : List Frame) : TpipeT :=
  t.modify side fun p => { p with rbuf, callbacks }

/-- A read leaves the other side alone, -/
lemma setReader_pinfo_of_ne (t : TpipeT) {side s : Fin 2} (rbuf : BufferT) (cbs : List Frame)
    (h : s ≠ side) : (t.setReader side rbuf cbs).pinfo s = t.pinfo s :=
  modify_pinfo_of_ne t _ h

/-- and of its own side the descriptor, the poller and the write buffer. -/
lemma setReader_frame (t : TpipeT) (side : Fin 2) (rbuf : BufferT) (cbs : List Frame) (s : Fin 2) :
    ((t.setReader side rbuf cbs).pinfo s).fd = (t.pinfo s).fd ∧
      ((t.setReader side rbuf cbs).pinfo s).poller = (t.pinfo s).poller ∧
      ((t.setReader side rbuf cbs).pinfo s).wbuf = (t.pinfo s).wbuf := by
  by_cases hs : s = side
  · subst hs
    rw [setReader, modify_pinfo_self]
    exact ⟨rfl, rfl, rfl⟩
  · rw [setReader_pinfo_of_ne t rbuf cbs hs]
    exact ⟨rfl, rfl, rfl⟩

lemma sideOf_setReader (t : TpipeT) (side : Fin 2) (rbuf : BufferT) (cbs : List Frame) (fd : ℤ) :
    (t.setReader side rbuf cbs).sideOf fd = t.sideOf fd := by
  rw [sideOf, sideOf, (setReader_frame t side rbuf cbs 0).1, (setReader_frame t side rbuf cbs 1).1]

/-- **A read event extends the stream received by the bytes read.** -/
lemma Reading.onEvRead {os : Libc} (ht : os.Total) {t : TpipeT} {side : Fin 2} {fd : ℤ}
    {B : List UInt8} (hside : t.sideOf fd = some side) (h : Reading t side B)
    (r : Option (List UInt8)) (hr : ∀ bytes ∈ r, bytes.length ≤ maxProtoLen) :
    ∃ buf cbs, t.onEvRead os fd (readOutcome r) = .ok (t.setReader side buf cbs) ∧
      Reading (t.setReader side buf cbs) side (B ++ r.getD []) := by
  obtain ⟨b₁, r₁, hp, hr₁, hb₁, hroom⟩ := h.prepare ht
  cases r with
  | none =>
      refine ⟨b₁, (t.pinfo side).callbacks, ?_, ?_⟩
      · rw [TpipeT.onEvRead, hside]
        simp only [hp, ok_bind]
        rfl
      · rw [Option.getD_none, List.append_nil]
        constructor <;> rw [setReader, modify_pinfo_self]
        · exact h.cbRead
        · exact hr₁
        · exact hb₁
        · exact h.callbacks
  | some bytes =>
      have hbytes := hr bytes rfl
      obtain ⟨b₂, h₂, hr₂, hb₂⟩ := BufferT.flushPush_total (w := bytes) hr₁ hb₁ (by omega)
      obtain ⟨b₃, h₃, hr₃, hb₃⟩ := frameLoop_spec ht _ hr₂ hb₂ (le_refl _)
      rw [hr₂.length_eq] at h₃
      have happ : readFrames (B ++ bytes)
          = ((readFrames B).1 ++ (readFrames ((readFrames B).2 ++ bytes)).1,
            (readFrames ((readFrames B).2 ++ bytes)).2) := frameExtractor.drain_append B bytes
      refine ⟨b₃, (readFrames (B ++ bytes)).1, ?_, ?_⟩
      · rw [TpipeT.onEvRead, hside]
        simp only [readOutcome, hp, ok_bind, h₂, h.cbRead, if_true, h₃, happ, ← h.callbacks]
        rfl
      · rw [Option.getD_some]
        constructor <;> rw [setReader, modify_pinfo_self]
        · exact h.cbRead
        · rw [happ]
          exact hr₃
        · exact hb₃

/-! ## Sequences of read events -/

/-- Successive read events on one descriptor. -/
def readEvents (t : TpipeT) (fd : ℤ) : List (Libc × Option (List UInt8)) → Except Fault TpipeT
  | [] => .ok t
  | (os, r) :: evs => do
      let t ← t.onEvRead os fd (readOutcome r)
      readEvents t fd evs

/-- The stream a sequence of read events delivers. -/
def received (evs : List (Libc × Option (List UInt8))) : List UInt8 :=
  (evs.filterMap fun e => e.2).flatten

lemma received_cons (os : Libc) (r : Option (List UInt8))
    (evs : List (Libc × Option (List UInt8))) :
    received ((os, r) :: evs) = r.getD [] ++ received evs := by
  cases r <;> simp [received]

/-- A side that has received `B` and sees a sequence of read events has received `B` and what they
deliver. -/
lemma Reading.readEvents {side : Fin 2} {fd : ℤ} :
    ∀ (evs : List (Libc × Option (List UInt8))) {t : TpipeT} {B : List UInt8},
      t.sideOf fd = some side → Reading t side B → (∀ e ∈ evs, e.1.Total) →
      (∀ e ∈ evs, ∀ bytes ∈ e.2, bytes.length ≤ maxProtoLen) →
      ∃ t', TpipeT.readEvents t fd evs = .ok t' ∧ Reading t' side (B ++ received evs)
  | [], t, B, _, h, _, _ => ⟨t, rfl, by simpa [received] using h⟩
  | (os, r) :: evs, t, B, hside, h, ht, hlen => by
      have hos : os.Total := ht (os, r) (by simp)
      obtain ⟨buf, cbs, h₁, hr₁⟩ := h.onEvRead hos hside r (hlen (os, r) (by simp))
      obtain ⟨t', h₂, hr₂⟩ := Reading.readEvents evs
        ((sideOf_setReader t side buf cbs fd).trans hside) hr₁ (fun e he => ht e (by simp [he]))
        (fun e he => hlen e (by simp [he]))
      refine ⟨t', ?_, ?_⟩
      · rw [TpipeT.readEvents, h₁, ok_bind, h₂]
      · rw [received_cons, ← List.append_assoc]
        exact hr₂

/-- What `tpipe_t::tpipe_t()` leaves behind. -/
lemma new_eq_ok {os : Libc} {sv : Fin 2 → ℤ} {t : TpipeT} (h : TpipeT.new os sv = .ok t) :
    ∃ wbuf rbuf, BufferT.new os initBufSize = .ok wbuf ∧ BufferT.new os initBufSize = .ok rbuf ∧
      t = { pinfo := fun i =>
        { fd := sv i, wbuf, rbuf, cbRead := false, poller := false,
          callbacks := [], pollerCalls := [] } } := by
  obtain ⟨wbuf, hw, h⟩ := bind_eq_ok h
  obtain ⟨rbuf, hr, h⟩ := bind_eq_ok h
  exact ⟨wbuf, rbuf, hw, hr, (Except.ok.inj h).symm⟩

/-- The capacity of a new buffer is the requested one. -/
lemma bounded_new {os : Libc} {n A : ℕ} {b : BufferT} (hn : n ≤ A)
    (h : BufferT.new os n = .ok b) : b.Bounded A := by
  obtain ⟨b₁, h₁, h⟩ := bind_eq_ok h
  obtain ⟨m, rfl⟩ := BufferT.alloc_eq_ok h₁
  obtain rfl := Except.ok.inj h
  exact ⟨hn, hn⟩

/-- A side of a new pipe, its callback installed, has received nothing. -/
lemma reading_init {os : Libc} {sv : Fin 2 → ℤ} {t : TpipeT} (h : TpipeT.new os sv = .ok t)
    (side : Fin 2) : Reading (t.init side true) side [] := by
  obtain ⟨wbuf, rbuf, -, hr, rfl⟩ := new_eq_ok h
  constructor <;> rw [TpipeT.init, modify_pinfo_self]
  · exact BufferT.new_refines (by decide) hr
  · exact bounded_new (by decide) hr
  · rfl

/-- The sides of a pipe are told apart by their descriptors, which `socketpair` makes distinct. -/
lemma sideOf_init {os : Libc} {sv : Fin 2 → ℤ} {t : TpipeT} (h : TpipeT.new os sv = .ok t)
    (hsv : sv 0 ≠ sv 1) (side : Fin 2) : (t.init side true).sideOf (sv side) = some side := by
  obtain ⟨wbuf, rbuf, -, -, rfl⟩ := new_eq_ok h
  fin_cases side
  · simp [TpipeT.init, sideOf, modify]
  · simp [TpipeT.init, sideOf, modify, hsv.symm]

/-- **Reading does not depend on how the stream is cut up.**  A new pipe, with a callback on one
side, is given the byte string `B` in reads of 1 to 32000 bytes, with any number of reads that find
nothing in between.  The callbacks made are the frames the reference reader finds in the whole of
`B`, and the bytes kept in the read buffer are the ones it leaves. -/
theorem onEvRead_split_independent {os : Libc} {sv : Fin 2 → ℤ} {t : TpipeT} (hsv : sv 0 ≠ sv 1)
    (hnew : TpipeT.new os sv = .ok t) (side : Fin 2) (B : List UInt8)
    (evs : List (Libc × Option (List UInt8))) (hB : received evs = B) (ht : ∀ e ∈ evs, e.1.Total)
    (hlen : ∀ e ∈ evs, ∀ bytes ∈ e.2, 1 ≤ bytes.length ∧ bytes.length ≤ maxProtoLen) :
    ∃ t', readEvents (t.init side true) (sv side) evs = .ok t' ∧
      (t'.pinfo side).callbacks = (readFrames B).1 ∧
      (t'.pinfo side).rbuf.bytes = (readFrames B).2 := by
  obtain ⟨t', h, hr⟩ := Reading.readEvents evs (sideOf_init hnew hsv side) (reading_init hnew side)
    ht (fun e he bytes hb => (hlen e he bytes hb).2)
  rw [List.nil_append, hB] at hr
  exact ⟨t', h, hr.callbacks, hr.rbuf.bytes_eq⟩

/-- The descriptors of a socket pair. -/
def someFds : Fin 2 → ℤ := fun i => 3 + i.val

/-- A frame that arrives in two pieces with nothing in between, followed by half a header. -/
theorem onEvRead_split_independent_two_pieces :
    ∃ t t', TpipeT.new zeroLibc someFds = .ok t ∧
      readEvents (t.init 1 true) (someFds 1) [(zeroLibc, some [1, 0]), (zeroLibc, none),
        (zeroLibc, some [1, 0, 7, 2, 0])] = .ok t' ∧
      (t'.pinfo 1).callbacks = [({ proto := 1, plLen := 1 }, [7])] ∧
      (t'.pinfo 1).rbuf.bytes = [2, 0] := by
  obtain ⟨t', h, hcb, hrest⟩ := onEvRead_split_independent
    (show someFds 0 ≠ someFds 1 by decide)
    (show TpipeT.new zeroLibc someFds = .ok _ from rfl) 1 [1, 0, 1, 0, 7, 2, 0]
    [(zeroLibc, some [1, 0]), (zeroLibc, none),
      (zeroLibc, some [1, 0, 7, 2, 0])] rfl
    (by simp [zeroLibc_total]) (by simp [maxProtoLen])
  exact ⟨_, t', rfl, h, hcb.trans (by decide), hrest.trans (by decide)⟩

end TpipeT

end Axon
