import Axon.Core.Buffer
import Axon.Library.Framing

/-!
# Message headers and frames

`ax_proto_msg.h`: a message on a pipe is a frame, four header bytes and a payload.  The header holds
the id of the wrapper message and the length of the payload, both 16 bit and little endian; the
macros `PACK_HEADER` and `UNPACK_HEADER` convert it.

`UNPACK_HEADER` reads through a plain `char` pointer.  On the platforms the source names, `char` is
signed, so a byte from 128 on is a negative `int` before it is shifted and or-ed in.
-/

namespace Axon

open Library

/-- `MAX_PROTO_LEN`. -/
def maxProtoLen : ℕ := 32000

/-- `MSG_HEADER_LEN`. -/
def msgHeaderLen : ℕ := 4

/-- `msg_header_t`. -/
structure MsgHeader where
  /-- Wrapper proto id. -/
  proto : UInt16
  /-- Payload length. -/
  plLen : UInt16
deriving DecidableEq, Repr

/-- A plain `char` promoted to `int`: the sign is extended. -/
def charToInt (c : UInt8) : BitVec 32 := c.toBitVec.signExtend 32

/-- `*(p) | *((p)+1) << 8`, stored in a `uint16_t`. -/
def unpackUint16 (lo hi : UInt8) : UInt16 :=
  ⟨(charToInt lo ||| charToInt hi <<< 8).setWidth 16⟩

/-- `UNPACK_HEADER(h, p)`. -/
def unpackHeader (p : ℕ → UInt8) : MsgHeader :=
  { proto := unpackUint16 (p 0) (p 1), plLen := unpackUint16 (p 2) (p 3) }

/-- `PACK_HEADER(h, p)`: the four bytes it stores. -/
def packHeader (h : MsgHeader) : List UInt8 :=
  [(h.proto &&& 0xFF).toUInt8, ((h.proto >>> 8) &&& 0xFF).toUInt8,
    (h.plLen &&& 0xFF).toUInt8, ((h.plLen >>> 8) &&& 0xFF).toUInt8]

@[simp] lemma length_packHeader (h : MsgHeader) : (packHeader h).length = msgHeaderLen := rfl

/-- What `UNPACK_HEADER` makes of two bytes: a low byte from 128 on is a negative `char`, and its
extended sign covers the high byte. -/
lemma toNat_unpackUint16 (lo hi : UInt8) :
    (unpackUint16 lo hi).toNat = lo.toNat + 256 * (if lo.toNat < 128 then hi.toNat else 255) := by
  have hbits : (unpackUint16 lo hi).toBitVec =
      (if lo.toBitVec.msb then 255#8 else hi.toBitVec) ++ lo.toBitVec := by
    rw [unpackUint16, charToInt, charToInt]
    apply BitVec.eq_of_getLsbD_eq
    intro i hi'
    simp only [BitVec.getLsbD_setWidth, BitVec.getLsbD_or, BitVec.getLsbD_signExtend,
      BitVec.getLsbD_shiftLeft, BitVec.getLsbD_append]
    by_cases h8 : i < 8
    · simp [h8, hi', show i < 32 by omega]
    · have h255 : ∀ j < 8, (255#8).getLsbD j = true := by decide
      cases hm : lo.toBitVec.msb with
      | false =>
          simp [h8, hi', show i < 32 by omega, show i - 8 < 8 by omega, show i - 8 < 32 by omega]
      | true => simp [h8, h255 (i - 8) (by omega), hi', show i < 32 by omega]
  have hmsb : lo.toBitVec.msb = decide (128 ≤ lo.toNat) := by
    rw [BitVec.msb_eq_decide]
    rfl
  have hlo : lo.toBitVec.toNat < 2 ^ 8 := lo.toNat_lt
  rw [← UInt16.toNat_toBitVec, hbits, BitVec.toNat_append, ← Nat.shiftLeft_add_eq_or_of_lt hlo,
    Nat.shiftLeft_eq, hmsb]
  by_cases h : lo.toNat < 128
  · simp [h, show ¬ 128 ≤ lo.toNat by omega]
    omega
  · simp [h, show 128 ≤ lo.toNat by omega]
    omega

lemma toNat_lowByte (x : UInt16) : (x &&& 0xFF).toUInt8.toNat = x.toNat % 256 := by
  simp only [UInt16.toNat_toUInt8, UInt16.toNat_and]
  rw [show (0xFF : UInt16).toNat = 2 ^ 8 - 1 from rfl, Nat.and_two_pow_sub_one_eq_mod]
  omega

lemma toNat_highByte (x : UInt16) : ((x >>> 8) &&& 0xFF).toUInt8.toNat = x.toNat / 256 := by
  have := x.toNat_lt
  rw [toNat_lowByte, UInt16.toNat_shiftRight, Nat.shiftRight_eq_div_pow]
  simp
  omega

/-- A 16-bit number whose low byte is a non-negative `char`, or whose high byte is what the sign of
the low byte extends to. -/
def SignSafe (n : ℕ) : Prop := n % 256 < 128 ∨ 0xFF00 ≤ n

instance (n : ℕ) : Decidable (SignSafe n) :=
  inferInstanceAs (Decidable (n % 256 < 128 ∨ 0xFF00 ≤ n))

/-- **What survives the header**: a `uint16_t` is read back as packed if and only if it is safe from
the sign of its low byte. -/
lemma unpackUint16_pack_iff (x : UInt16) :
    unpackUint16 (x &&& 0xFF).toUInt8 ((x >>> 8) &&& 0xFF).toUInt8 = x ↔ SignSafe x.toNat := by
  have hlt := x.toNat_lt
  rw [← UInt16.toNat_inj, toNat_unpackUint16, toNat_lowByte, toNat_highByte, SignSafe]
  split_ifs <;> omega

/-- `proto_msg_t`: the part of the interface a sender uses.  `pack maxn` is the list of bytes stored
at the given address, or `none` for a negative return value. -/
structure ProtoMsg where
  calSize : ℕ
  pack : ℕ → Option (List UInt8)

/-- A message packs into exactly the number of bytes `cal_size` announces. -/
def ProtoMsg.Sized (m : ProtoMsg) : Prop :=
  ∃ bs, m.pack m.calSize = some bs ∧ bs.length = m.calSize

/-! ## The frame rule -/

/-- One frame as a receiver sees it. -/
abbrev Frame := MsgHeader × List UInt8

/-- The bytes of a list as memory. -/
def byteAt (bs : List UInt8) : ℕ → UInt8 := fun i => bs.getD i 0

/-- The memory of a list shows the list. -/
lemma window_byteAt (bs : List UInt8) : window (byteAt bs) 0 bs.length = bs := by
  have hblit : byteAt bs = blit (fun _ => 0) 0 bs := by
    funext i
    simp [byteAt, blit]
  rw [hblit, window_blit_self]

/-- The rule by which a stream of frames is read: with more than a header's worth of bytes, decode
the header; if its payload is there too, cut off header and payload. -/
def frameStep (bs : List UInt8) : Option (Frame × List UInt8) :=
  let h := unpackHeader (byteAt bs)
  if bs.length ≤ msgHeaderLen then none
  else if bs.length - msgHeaderLen < h.plLen.toNat then none
  else some ((h, (bs.drop msgHeaderLen).take h.plLen.toNat),
    bs.drop (msgHeaderLen + h.plLen.toNat))

/-- The header of a stream does not change when more bytes arrive. -/
lemma unpackHeader_append {bs : List UInt8} (more : List UInt8) (h : msgHeaderLen ≤ bs.length) :
    unpackHeader (byteAt (bs ++ more)) = unpackHeader (byteAt bs) := by
  have key : ∀ i < 4, byteAt (bs ++ more) i = byteAt bs i := by
    intro i hi
    have : i < bs.length := lt_of_lt_of_le hi h
    simp [byteAt, List.getElem?_append_left this]
  rw [unpackHeader, unpackHeader, key 0 (by omega), key 1 (by omega), key 2 (by omega),
    key 3 (by omega)]

/-- What `frameStep` says when it cuts off a frame. -/
lemma frameStep_eq_some {bs rest : List UInt8} {f : Frame} (h : frameStep bs = some (f, rest)) :
    msgHeaderLen + f.1.plLen.toNat ≤ bs.length ∧ msgHeaderLen < bs.length ∧
      f.1 = unpackHeader (byteAt bs) ∧ f.2 = (bs.drop msgHeaderLen).take f.1.plLen.toNat ∧
      rest = bs.drop (msgHeaderLen + f.1.plLen.toNat) := by
  simp only [frameStep] at h
  split_ifs at h with h1 h2
  obtain ⟨rfl, rfl⟩ := Prod.mk.inj (Option.some.inj h)
  exact ⟨by dsimp only; omega, by omega, rfl, rfl, rfl⟩

lemma frameStep_append {bs rest : List UInt8} {f : Frame} (more : List UInt8)
    (h : frameStep bs = some (f, rest)) : frameStep (bs ++ more) = some (f, rest ++ more) := by
  obtain ⟨hlen, hhead, hf, hpl, hrest⟩ := frameStep_eq_some h
  have hh : unpackHeader (byteAt (bs ++ more)) = f.1 := by
    rw [unpackHeader_append more (by omega), hf]
  simp only [frameStep, hh]
  rw [if_neg (by simp; omega), if_neg (by simp; omega)]
  rw [List.drop_append_of_le_length (by omega), List.drop_append_of_le_length (by omega),
    List.take_append_of_le_length (by simp; omega), ← hpl, ← hrest]

/-- The frame rule as an extractor. -/
def frameExtractor : Extractor UInt8 Frame where
  step := frameStep
  shrinks := by
    intro bs f rest h
    obtain ⟨hlen, -, -, -, rfl⟩ := frameStep_eq_some h
    simp only [List.length_drop, msgHeaderLen] at hlen ⊢
    omega
  stable := fun more h => frameStep_append more h

/-- **The reference reader of a stream**: apply the frame rule to the whole of it, again and again.
The frames, and the bytes that do not make up a frame yet. -/
def readFrames (bs : List UInt8) : List Frame × List UInt8 := frameExtractor.drain bs

/-- What a reader keeps is shorter than the longest frame. -/
lemma length_readFrames_rest (bs : List UInt8) : (readFrames bs).2.length < 4 + 2 ^ 16 := by
  have h : frameStep (readFrames bs).2 = none := frameExtractor.step_drain_rest bs
  have hpl := (unpackHeader (byteAt (readFrames bs).2)).plLen.toNat_lt
  simp only [frameStep] at h
  split_ifs at h with h1 h2
  · simp only [msgHeaderLen] at h1
    omega
  · simp only [msgHeaderLen] at h2
    omega

end Axon
