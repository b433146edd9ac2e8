import Axon.Core.TpipeReading

/-!
# Frames on the wire

What `tpipe_t::write` puts into the write buffer of its side, and what the framing loop of the other
side makes of it.

* **`SentFrame.encode`** : four header bytes and the payload.
* **`TpipeT.write_eq_ok`**, **`TpipeT.write_refused`** : a write appends one frame, or nothing when
  a message fails to pack.
* **`SentFrame.Readable`**, **`SentFrame.Readable.frameStep_encode`** : the frames whose header
  survives the signed `char` of `UNPACK_HEADER`, and that they are read back whatever follows.
* **`frame_survives_iff`** : these are the only ones.
-/

namespace Axon

open Library

/-- A frame as its sender sees it: the wrapper type and the payload. -/
abbrev SentFrame := ℕ × List UInt8

/-- The header `tpipe_t::write` puts in front of a payload. -/
def SentFrame.header (f : SentFrame) : MsgHeader :=
  { proto := UInt16.ofNat f.1, plLen := UInt16.ofNat f.2.length }

/-- The bytes of a frame. -/
def SentFrame.encode (f : SentFrame) : List UInt8 := packHeader (SentFrame.header f) ++ f.2

/-! ## Encoded frames are read back -/

/-- The frames that are read back as written: the type and the length are 16-bit numbers safe from
the sign of their low byte, and the payload is not empty. -/
structure SentFrame.Readable (f : SentFrame) : Prop where
  type_lt : f.1 < 2 ^ 16
  length_pos : 1 ≤ f.2.length
  length_lt : f.2.length < 2 ^ 16
  type_safe : SignSafe f.1
  length_safe : SignSafe f.2.length

lemma SentFrame.toNat_proto {f : SentFrame} (h : f.1 < 2 ^ 16) :
    (SentFrame.header f).proto.toNat = f.1 := by
  rw [SentFrame.header, UInt16.toNat_ofNat', Nat.mod_eq_of_lt h]

lemma SentFrame.toNat_plLen {f : SentFrame} (h : f.2.length < 2 ^ 16) :
    (SentFrame.header f).plLen.toNat = f.2.length := by
  rw [SentFrame.header, UInt16.toNat_ofNat', Nat.mod_eq_of_lt h]

/-- The header `UNPACK_HEADER` reads at the front of a frame. -/
lemma SentFrame.unpackHeader_encode (f : SentFrame) (more : List UInt8) :
    unpackHeader (byteAt (f.encode ++ more)) =
      { proto := unpackUint16 ((SentFrame.header f).proto &&& 0xFF).toUInt8
          (((SentFrame.header f).proto >>> 8) &&& 0xFF).toUInt8
        plLen := unpackUint16 ((SentFrame.header f).plLen &&& 0xFF).toUInt8
          (((SentFrame.header f).plLen >>> 8) &&& 0xFF).toUInt8 } := rfl

/-- The header of a readable frame survives `PACK_HEADER` and `UNPACK_HEADER`. -/
lemma SentFrame.Readable.unpackHeader_encode {f : SentFrame} (h : f.Readable)
    (more : List UInt8) : unpackHeader (byteAt (f.encode ++ more)) = SentFrame.header f := by
  rw [SentFrame.unpackHeader_encode, (unpackUint16_pack_iff _).mpr, (unpackUint16_pack_iff _).mpr]
  · rw [SentFrame.toNat_plLen h.length_lt]
    exact h.length_safe
  · rw [SentFrame.toNat_proto h.type_lt]
    exact h.type_safe

/-- A readable frame is cut off the front of a stream, whatever follows it. -/
lemma SentFrame.Readable.frameStep_encode {f : SentFrame} (h : f.Readable) (more : List UInt8) :
    frameStep (f.encode ++ more) = some ((SentFrame.header f, f.2), more) := by
  have hpos := h.length_pos
  have hlen : (f.encode ++ more).length = msgHeaderLen + f.2.length + more.length := by
    simp only [SentFrame.encode, List.length_append, length_packHeader]
  have hdrop : (f.encode ++ more).drop msgHeaderLen = f.2 ++ more := by
    rw [SentFrame.encode, List.append_assoc, List.drop_append_of_le_length (by simp),
      List.drop_of_length_le (by simp), List.nil_append]
  simp only [frameStep, h.unpackHeader_encode, SentFrame.toNat_plLen h.length_lt, hlen]
  rw [if_neg (by omega), if_neg (by omega), hdrop, ← List.drop_drop, hdrop]
  simp

/-- A readable frame is the first one the reference reader finds, and the rest of the stream is read
as if it stood alone. -/
lemma SentFrame.Readable.readFrames_encode {f : SentFrame} (h : f.Readable) (more : List UInt8) :
    readFrames (f.encode ++ more) =
      ((SentFrame.header f, f.2) :: (readFrames more).1, (readFrames more).2) :=
  frameExtractor.drain_of_some (h.frameStep_encode more)

/-! ## What a write does -/

/-- The payload of a message that is written: the wrapper, then the packet. -/
def Mailbox.payload (wrapper pkt : ProtoMsg) : List UInt8 :=
  (wrapper.pack wrapper.calSize).getD [] ++ (pkt.pack pkt.calSize).getD []

/-- Two sides agree on everything but the calls made on their poller. -/
structure PipeInfo.Same (p p' : PipeInfo) : Prop where
  fd : p'.fd = p.fd
  wbuf : p'.wbuf = p.wbuf
  rbuf : p'.rbuf = p.rbuf
  cbRead : p'.cbRead = p.cbRead
  poller : p'.poller = p.poller
  callbacks : p'.callbacks = p.callbacks

namespace TpipeT

/-- An attempt to flush changes nothing in the pipe. -/
lemma tryWrite_same (t : TpipeT) (side : Fin 2) (res : WriteResult) (s : Fin 2) :
    (t.pinfo s).Same ((t.tryWrite side res).1.pinfo s) := by
  have hmod : ∀ calls : PipeInfo → List PollerCall,
      (t.pinfo s).Same ((t.modify side fun p => { p with pollerCalls := calls p }).pinfo s) := by
    intro calls
    by_cases hs : s = side
    · subst hs
      rw [modify_pinfo_self]
      exact ⟨rfl, rfl, rfl, rfl, rfl, rfl⟩
    · rw [modify_pinfo_of_ne t _ hs]
      exact ⟨rfl, rfl, rfl, rfl, rfl, rfl⟩
  cases res with
  | again => exact ⟨rfl, rfl, rfl, rfl, rfl, rfl⟩
  | fail => exact hmod fun p => p.pollerCalls ++ [.waitClose p.fd]
  | accept n =>
      rw [tryWrite]
      split_ifs
      · exact hmod fun p => p.pollerCalls ++ [.delEvWrite p.fd]
      · exact ⟨rfl, rfl, rfl, rfl, rfl, rfl⟩

/-- The stores of `write` put one frame behind the window. -/
lemma storeAt_frame (b : BufferT) (h : MsgHeader) (ws ps : List UInt8) :
    storeAt (storeAt (storeAt b 0 (packHeader h)) msgHeaderLen ws) (msgHeaderLen + ws.length) ps
      = b.writeTail (packHeader h ++ (ws ++ ps)) := by
  rw [storeAt, storeAt, storeAt, BufferT.writeTail]
  simp only [Option.map_map, Function.comp_def, Nat.add_zero]
  congr 2
  funext m
  have h1 := blit_blit_append m b.end_ (packHeader h) ws
  have h2 := blit_blit_append m b.end_ (packHeader h ++ ws) ps
  rw [length_packHeader] at h1
  rw [List.length_append, length_packHeader, List.append_assoc] at h2
  rw [h1, h2]

/-- **A write appends its frame to the write buffer**, and then tries to flush. -/
lemma write_eq_ok {os : Libc} {t t' : TpipeT} {side : Fin 2} {wrapperType : ℕ}
    {wrapper pkt : ProtoMsg} {res : WriteResult} {ret : ℤ} {bytes q : List UInt8}
    (hpoll : (t.pinfo side).poller = true) (hw : wrapper.Sized) (hp : pkt.Sized)
    (hr : (t.pinfo side).wbuf.Refines q)
    (hsum : (t.pinfo side).wbuf.end_ + (Mailbox.payload wrapper pkt).length + msgHeaderLen
      < 2 ^ 32 - 128)
    (h : t.write os side wrapperType wrapper pkt res = .ok (t', ret, bytes)) :
    ∃ wbuf, wbuf.Refines (q ++ SentFrame.encode (wrapperType, Mailbox.payload wrapper pkt)) ∧
      wbuf.end_ ≤ (t.pinfo side).wbuf.end_ + (Mailbox.payload wrapper pkt).length + msgHeaderLen ∧
      ret = 0 ∧ (t', bytes) = (t.modify side fun p => { p with wbuf }).tryWrite side res := by
  obtain ⟨ws, hws, hwl⟩ := hw
  obtain ⟨ps, hps, hpl⟩ := hp
  have hpay : Mailbox.payload wrapper pkt = ws ++ ps := by
    rw [Mailbox.payload, hws, hps, Option.getD_some, Option.getD_some]
  rw [hpay, List.length_append] at hsum
  rw [write, hpoll, if_neg (by decide)] at h
  obtain ⟨⟨b₁, r₁⟩, h₁, h⟩ := bind_eq_ok h
  obtain ⟨hr₁, hroom, hend⟩ := BufferT.prepare_refines hr (by omega) h₁
  simp only [hws, hps] at h
  rw [← hwl, storeAt_frame] at h
  obtain ⟨b₂, h₂, h⟩ := bind_eq_ok h
  have hlen : pkt.calSize + ws.length + msgHeaderLen
      = (SentFrame.encode (wrapperType, ws ++ ps)).length := by
    simp only [SentFrame.encode, List.length_append, length_packHeader]
    omega
  have henc : packHeader ⟨UInt16.ofNat wrapperType, UInt16.ofNat (ws.length + pkt.calSize)⟩
      ++ (ws ++ ps) = SentFrame.encode (wrapperType, ws ++ ps) := by
    rw [SentFrame.encode, SentFrame.header, List.length_append, hpl]
  rw [henc, hlen] at h₂
  have hr₂ := BufferT.flushPush_refines hr₁ (le_refl _) (by omega) (fun hn => by
    have := hr₁.null hn
    omega) h₂
  rw [List.take_length] at hr₂
  refine ⟨b₂, ?_, ?_, ?_, ?_⟩
  · rw [hpay]
    exact hr₂
  · have hle := BufferT.flushPush_end_le h₂
    rw [show (b₁.writeTail _).end_ = b₁.end_ from rfl, ← hlen] at hle
    rw [hpay, List.length_append]
    omega
  · exact (Prod.mk.inj (Prod.mk.inj (Except.ok.inj h)).2).1.symm
  · obtain ⟨hfst, hsnd⟩ := Prod.mk.inj (Except.ok.inj h)
    exact Prod.ext hfst.symm (Prod.mk.inj hsnd).2.symm

/-- A store behind the window leaves the queue alone. -/
lemma storeAt_refines {b : BufferT} {q : List UInt8} (hr : b.Refines q) (off : ℕ)
    (bytes : List UInt8) : (storeAt b off bytes).Refines q := by
  have hpos := hr.start_add_len
  refine ⟨hpos, hr.end_le, hr.alloc_lt, hr.init_lt, fun hn => hr.null ?_, ?_⟩
  · simpa [storeAt] using hn
  · cases hb : b.buf with
    | none => simpa [storeAt, BufferT.bytes, hb] using hr.bytes_eq
    | some m =>
        simp only [storeAt, BufferT.bytes, hb, Option.map_some]
        rw [window_blit_of_le m bytes (by omega), hr.window_eq hb]

/-- What a side needs for a write of `n` payload bytes: a poller, and a write buffer whose 32-bit
positions have room for the frame. -/
structure CanWrite (t : TpipeT) (side : Fin 2) (n : ℕ) : Prop where
  poller : (t.pinfo side).poller = true
  refines : (t.pinfo side).wbuf.Refines (t.pinfo side).wbuf.bytes
  room : (t.pinfo side).wbuf.end_ + n + msgHeaderLen < 2 ^ 32 - 128

/-- A new pipe can be written to. -/
lemma canWrite_init {os : Libc} {sv : Fin 2 → ℤ} {t : TpipeT} (h : TpipeT.new os sv = .ok t)
    (side : Fin 2) {n : ℕ} (hn : n < 2 ^ 31) : (t.init side true).CanWrite side n := by
  obtain ⟨wbuf, rbuf, hw, -, rfl⟩ := new_eq_ok h
  have hr := BufferT.new_refines (by decide) hw
  have hle := (bounded_new (Nat.le_refl initBufSize) hw).alloc_le
  have hend := hr.end_le
  rw [initBufSize] at hle
  constructor <;> rw [TpipeT.init, modify_pinfo_self]
  · rw [hr.bytes_eq]
    exact hr
  · rw [msgHeaderLen]
    dsimp only
    omega

section Write

variable {os : Libc} {t : TpipeT} {side : Fin 2} {wrapperType : ℕ} {wrapper pkt : ProtoMsg}

/-- **A write of two messages that pack appends one frame.** -/
lemma write_appends (ht : os.Total) (hcan : t.CanWrite side (wrapper.calSize + pkt.calSize))
    {ws ps : List UInt8} (hws : wrapper.pack wrapper.calSize = some ws)
    (hwl : ws.length = wrapper.calSize) (hps : pkt.pack pkt.calSize = some ps)
    (hpl : ps.length = pkt.calSize) (res : WriteResult) :
    ∃ t' sent, t.write os side wrapperType wrapper pkt res = .ok (t', 0, sent) ∧
      (t'.pinfo side).wbuf.bytes =
        (t.pinfo side).wbuf.bytes ++ SentFrame.encode (wrapperType, ws ++ ps) := by
  have hroom := hcan.room
  have hpay : Mailbox.payload wrapper pkt = ws ++ ps := by
    rw [Mailbox.payload, hws, hps, Option.getD_some, Option.getD_some]
  have hret : ∃ r, t.write os side wrapperType wrapper pkt res = .ok r := by
    obtain ⟨b₁, r₁, h₁⟩ := BufferT.prepare_returns ht (t.pinfo side).wbuf
      (pkt.calSize + wrapper.calSize + msgHeaderLen)
    obtain ⟨hr₁, hroom₁, -⟩ := BufferT.prepare_refines hcan.refines (by omega) h₁
    have hlt := hr₁.alloc_lt
    rw [write, hcan.poller, if_neg (by decide)]
    simp only [h₁, ok_bind, hws, hps]
    rw [BufferT.flushPush, rtAssert_of_pos]
    · exact ⟨_, rfl⟩
    · show u32 (b₁.end_ + _) ≤ b₁.allocSize
      rw [u32_of_lt (by omega)]
      exact hroom₁
  obtain ⟨⟨t', ret, sent⟩, hret⟩ := hret
  obtain ⟨wbuf, hr, -, rfl, hflush⟩ := write_eq_ok hcan.poller ⟨ws, hws, hwl⟩ ⟨ps, hps, hpl⟩
    hcan.refines (by rw [hpay, List.length_append]; omega) hret
  refine ⟨t', sent, hret, ?_⟩
  have ht' : t' = _ := congrArg Prod.fst hflush
  rw [ht', (tryWrite_same _ side res side).wbuf, modify_pinfo_self, hr.bytes_eq, hpay]

/-- **A write of a message that fails to pack appends nothing.** -/
lemma write_refused (ht : os.Total) (hcan : t.CanWrite side (wrapper.calSize + pkt.calSize))
    (hnone : wrapper.pack wrapper.calSize = none ∨ pkt.pack pkt.calSize = none)
    (res : WriteResult) :
    ∃ t', t.write os side wrapperType wrapper pkt res = .ok (t', -1, []) ∧
      (t'.pinfo side).wbuf.bytes = (t.pinfo side).wbuf.bytes := by
  have hroom := hcan.room
  obtain ⟨b₁, r₁, h₁⟩ := BufferT.prepare_returns ht (t.pinfo side).wbuf
    (pkt.calSize + wrapper.calSize + msgHeaderLen)
  obtain ⟨hr₁, -, -⟩ := BufferT.prepare_refines hcan.refines (by omega) h₁
  rw [write, hcan.poller, if_neg (by decide)]
  simp only [h₁, ok_bind]
  cases hw : wrapper.pack wrapper.calSize with
  | none =>
      refine ⟨_, rfl, ?_⟩
      rw [modify_pinfo_self]
      exact (storeAt_refines hr₁ _ _).bytes_eq
  | some ws =>
      rcases hnone with hnone | hnone
      · exact absurd (hw.symm.trans hnone) (by simp)
      · rw [hnone]
        refine ⟨_, rfl, ?_⟩
        rw [modify_pinfo_self]
        exact (storeAt_refines (storeAt_refines hr₁ _ _) _ _).bytes_eq

end Write

/-- The bytes an attempt to flush hands to the socket. -/
lemma tryWrite_bytes (t : TpipeT) (side : Fin 2) (res : WriteResult) :
    (t.tryWrite side res).2 = match res with
      | .accept n => (t.pinfo side).wbuf.bytes.take n
      | _ => [] := by
  cases res <;> rfl

end TpipeT

/-! ## Which frames survive -/

/-- When a message packs at all, it packs into the number of bytes `cal_size` announces. -/
def ProtoMsg.TrueSize (m : ProtoMsg) : Prop :=
  ∀ bs, m.pack m.calSize = some bs → bs.length = m.calSize

lemma ProtoMsg.Sized.trueSize {m : ProtoMsg} (h : m.Sized) : m.TrueSize := by
  obtain ⟨bs, hbs, hlen⟩ := h
  intro bs' hbs'
  obtain rfl := Option.some.inj (hbs.symm.trans hbs')
  exact hlen

/-- **A write appends exactly its frame**: for every side that can write and any answer of the
socket, the call returns; the write buffer has got four header bytes, the wrapper and the packet, or
nothing when one of them fails to pack. -/
def WriteAppends (wrapperType : ℕ) (wrapper pkt : ProtoMsg) : Prop :=
  ∀ (os : Libc) (t : TpipeT) (side : Fin 2) (res : WriteResult), os.Total →
    t.CanWrite side (wrapper.calSize + pkt.calSize) →
    ∃ t' ret sent, t.write os side wrapperType wrapper pkt res = .ok (t', ret, sent) ∧
      match wrapper.pack wrapper.calSize, pkt.pack pkt.calSize with
      | some ws, some ps => ret = 0 ∧ ∃ header : List UInt8, header.length = 4 ∧
          header = packHeader
            ⟨UInt16.ofNat wrapperType, UInt16.ofNat (wrapper.calSize + pkt.calSize)⟩ ∧
          (t'.pinfo side).wbuf.bytes = (t.pinfo side).wbuf.bytes ++ (header ++ (ws ++ ps))
      | _, _ => ret = -1 ∧ (t'.pinfo side).wbuf.bytes = (t.pinfo side).wbuf.bytes

/-- **A frame is read back as written**: a side that has read everything it was sent so far is sent
the frame and any bytes `more` behind it, in pieces of any size `on_ev_read` takes.  It calls back
once with the type, the length and the payload written, and reads `more` as if it stood alone. -/
def ReadBack (f : SentFrame) : Prop :=
  ∀ (t : TpipeT) (side : Fin 2) (fd : ℤ) (B more : List UInt8)
    (evs : List (Libc × Option (List UInt8))),
    t.sideOf fd = some side → t.Reading side B → (readFrames B).2 = [] →
    (∀ e ∈ evs, e.1.Total) → (∀ e ∈ evs, ∀ bytes ∈ e.2, bytes.length ≤ maxProtoLen) →
    TpipeT.received evs = f.encode ++ more →
    ∃ t' header, TpipeT.readEvents t fd evs = .ok t' ∧ header.proto.toNat = f.1 ∧
      header.plLen.toNat = f.2.length ∧
      (t'.pinfo side).callbacks =
        (t.pinfo side).callbacks ++ (header, f.2) :: (readFrames more).1 ∧
      (t'.pinfo side).rbuf.bytes = (readFrames more).2

/-- **A frame survives encoding**: it is appended as it should be, and when it was appended it is
read back. -/
def FrameSurvives (wrapperType : ℕ) (wrapper pkt : ProtoMsg) : Prop :=
  WriteAppends wrapperType wrapper pkt ∧
    ∀ ws ps, wrapper.pack wrapper.calSize = some ws → pkt.pack pkt.calSize = some ps →
      ReadBack (wrapperType, ws ++ ps)

section Survives

variable {wrapperType : ℕ} {wrapper pkt : ProtoMsg} {f : SentFrame}

lemma writeAppends (hw : wrapper.TrueSize) (hp : pkt.TrueSize) :
    WriteAppends wrapperType wrapper pkt := by
  intro os t side res ht hcan
  cases hws : wrapper.pack wrapper.calSize with
  | none =>
      obtain ⟨t', h, hbytes⟩ := TpipeT.write_refused ht hcan (Or.inl hws) res
      exact ⟨t', -1, [], h, rfl, hbytes⟩
  | some ws =>
      cases hps : pkt.pack pkt.calSize with
      | none =>
          obtain ⟨t', h, hbytes⟩ := TpipeT.write_refused ht hcan (Or.inr hps) res
          exact ⟨t', -1, [], h, rfl, hbytes⟩
      | some ps =>
          obtain ⟨t', sent, h, hbytes⟩ :=
            TpipeT.write_appends ht hcan hws (hw ws hws) hps (hp ps hps) res
          refine ⟨t', 0, sent, h, rfl, _, rfl, rfl, ?_⟩
          rw [hbytes, SentFrame.encode, SentFrame.header, List.length_append, hw ws hws, hp ps hps]

/-- A readable frame is read back. -/
lemma SentFrame.Readable.readBack (h : f.Readable) : ReadBack f := by
  intro t side fd B more evs hside hreading hrest ht hlen hrec
  obtain ⟨t', hev, hr⟩ := TpipeT.Reading.readEvents evs hside hreading ht hlen
  have happ : readFrames (B ++ (f.encode ++ more)) =
      ((readFrames B).1 ++ (readFrames (f.encode ++ more)).1,
        (readFrames (f.encode ++ more)).2) := by
    have := frameExtractor.drain_append B (f.encode ++ more)
    rw [show (frameExtractor.drain B).2 = [] from hrest, List.nil_append] at this
    exact this
  rw [hrec] at hr
  refine ⟨t', SentFrame.header f, hev, SentFrame.toNat_proto h.type_lt,
    SentFrame.toNat_plLen h.length_lt, ?_, ?_⟩
  · rw [hr.callbacks, hreading.callbacks, happ, h.readFrames_encode]
  · rw [hr.rbuf.bytes_eq, happ, h.readFrames_encode]

/-- The first frame of a stream carries the header at its front. -/
lemma header_of_readFrames {bs : List UInt8} {g : Frame} {gs : List Frame}
    (h : (readFrames bs).1 = g :: gs) : g.1 = unpackHeader (byteAt bs) := by
  cases hstep : frameStep bs with
  | none =>
      rw [readFrames, frameExtractor.drain_of_none hstep] at h
      exact absurd h (by simp)
  | some p =>
      obtain ⟨g', rest⟩ := p
      rw [readFrames, frameExtractor.drain_of_some hstep] at h
      obtain ⟨rfl, -⟩ := List.cons.inj h
      exact (frameStep_eq_some hstep).2.2.1

/-- A frame that is read back, byte by byte and with nothing behind it, is safe. -/
lemma ReadBack.safe (h : ReadBack f) (hty : f.1 < 2 ^ 16) (hlen : f.2.length < 2 ^ 16) :
    SignSafe f.1 ∧ SignSafe f.2.length := by
  have hnew : TpipeT.new zeroLibc TpipeT.someFds = .ok _ := rfl
  have hpieces : TpipeT.received (f.encode.map fun b => (zeroLibc, some [b])) = f.encode ++ [] := by
    rw [List.append_nil, TpipeT.received]
    generalize f.encode = bs
    induction bs with
    | nil => rfl
    | cons b bs ih => simpa using ih
  have hreading := TpipeT.reading_init hnew 0
  have hside := TpipeT.sideOf_init hnew (by decide) 0
  have htotal : ∀ e ∈ f.encode.map fun b => (zeroLibc, some [b]), e.1.Total := by
    intro e he
    obtain ⟨b, -, rfl⟩ := List.mem_map.mp he
    exact zeroLibc_total
  have hshort : ∀ e ∈ f.encode.map fun b => (zeroLibc, some [b]), ∀ bytes ∈ e.2,
      bytes.length ≤ maxProtoLen := by
    intro e he bytes hbytes
    obtain ⟨b, -, rfl⟩ := List.mem_map.mp he
    obtain rfl := Option.some.inj hbytes
    simp [maxProtoLen]
  obtain ⟨t', header, hev, hproto, hpl, hcb, -⟩ :=
    h _ 0 _ [] [] _ hside hreading rfl htotal hshort hpieces
  obtain ⟨t'', hev', hr⟩ := TpipeT.Reading.readEvents _ hside hreading htotal hshort
  obtain rfl := Except.ok.inj (hev.symm.trans hev')
  rw [hr.callbacks, hreading.callbacks, List.nil_append, hpieces] at hcb
  have hheader := header_of_readFrames hcb
  rw [SentFrame.unpackHeader_encode] at hheader
  dsimp only at hheader
  rw [hheader, ← SentFrame.toNat_proto hty] at hproto
  rw [hheader, ← SentFrame.toNat_plLen hlen] at hpl
  constructor
  · rw [← SentFrame.toNat_proto hty]
    exact (unpackUint16_pack_iff _).mp (UInt16.toNat_inj.mp hproto)
  · rw [← SentFrame.toNat_plLen hlen]
    exact (unpackUint16_pack_iff _).mp (UInt16.toNat_inj.mp hpl)

/-- **Which frames survive encoding.**  For every 16-bit wrapper type and every two messages of
their true sizes with 1 to 65535 bytes together, the frame survives if and only if a message fails
to pack, so that there is no frame, or both the type and the length are safe from the sign of their
low byte. -/
theorem frame_survives_iff (hty : wrapperType ≤ 65535) (hw : wrapper.TrueSize)
    (hp : pkt.TrueSize) (hpos : 1 ≤ wrapper.calSize + pkt.calSize)
    (hle : wrapper.calSize + pkt.calSize ≤ 65535) :
    FrameSurvives wrapperType wrapper pkt ↔
      wrapper.pack wrapper.calSize = none ∨ pkt.pack pkt.calSize = none ∨
        SignSafe wrapperType ∧ SignSafe (wrapper.calSize + pkt.calSize) := by
  have hlength : ∀ ws ps, wrapper.pack wrapper.calSize = some ws →
      pkt.pack pkt.calSize = some ps →
      (ws ++ ps).length = wrapper.calSize + pkt.calSize := by
    intro ws ps hws hps
    rw [List.length_append, hw ws hws, hp ps hps]
  constructor
  · rintro ⟨-, hread⟩
    cases hws : wrapper.pack wrapper.calSize with
    | none => exact Or.inl rfl
    | some ws =>
        cases hps : pkt.pack pkt.calSize with
        | none => exact Or.inr (Or.inl rfl)
        | some ps =>
            have hlen := hlength ws ps hws hps
            have hsafe := (hread ws ps hws hps).safe (by dsimp only; omega) (by dsimp only; omega)
            rw [← hlen]
            exact Or.inr (Or.inr hsafe)
  · intro hcond
    refine ⟨writeAppends hw hp, fun ws ps hws hps => ?_⟩
    rcases hcond with hnone | hnone | ⟨hsafe, hsafe'⟩
    · exact absurd (hnone.symm.trans hws) (by simp)
    · exact absurd (hnone.symm.trans hps) (by simp)
    · have hlen := hlength ws ps hws hps
      refine SentFrame.Readable.readBack ⟨by dsimp only; omega, ?_, ?_, hsafe, ?_⟩
      · dsimp only
        omega
      · dsimp only
        omega
      · dsimp only
        rw [hlen]
        exact hsafe'

/-- A message that packs into the given bytes. -/
def Mailbox.plainMsg (bs : List UInt8) : ProtoMsg := ⟨bs.length, fun _ => some bs⟩

/-- A frame of type 1 with a payload of three bytes. -/
theorem frame_survives_small :
    FrameSurvives 1 (Mailbox.plainMsg [5, 0]) (Mailbox.plainMsg [7]) := by
  refine (frame_survives_iff (by decide) ?_ ?_ (by decide) (by decide)).mpr
    (Or.inr (Or.inr (by decide)))
  · exact fun bs hbs => congrArg List.length (Option.some.inj hbs).symm
  · exact fun bs hbs => congrArg List.length (Option.some.inj hbs).symm

/-- A payload of 128 bytes, or a wrapper type of 128: the header that is read back is another one.
-/
theorem frame_survives_fails :
    ¬ FrameSurvives 1 (Mailbox.plainMsg [5, 0]) (Mailbox.plainMsg (List.replicate 126 0)) ∧
    ¬ FrameSurvives 128 (Mailbox.plainMsg [5, 0]) (Mailbox.plainMsg [7]) := by
  constructor
  · rintro ⟨-, hread⟩
    have hlen : ([5, 0] ++ List.replicate 126 0 : List UInt8).length = 128 := by simp
    have hsafe := (hread [5, 0] (List.replicate 126 0) rfl rfl).safe (by decide)
      (lt_of_eq_of_lt hlen (by decide))
    have hsafe' : SignSafe 128 := hlen ▸ hsafe.2
    exact absurd hsafe' (by decide)
  · rintro ⟨-, hread⟩
    have hsafe := (hread [5, 0] [7] rfl rfl).safe (by decide) (by decide)
    exact absurd hsafe.1 (by decide)

end Survives

end Axon
