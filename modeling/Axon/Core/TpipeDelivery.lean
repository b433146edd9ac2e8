import Axon.Core.TpipeFrames

/-!
# What a pipe delivers

The two sides of a `tpipe_t`, the two directions of its socket pair, and any interleaving of
`write`, `on_ev_write` and `on_ev_read` on either side.

`try_write` hands the whole write buffer to the socket and leaves it there: nothing that the socket
has taken is ever removed, so the next attempt offers it again.  As long as only one attempt of a
side meets a socket that takes something, the stream is a prefix of what was written and every frame
arrives once and in order (`delivers_in_order`); the first attempt after that sends the first bytes
a second time (`delivers_in_order_fails`).
-/

namespace Axon

open Library

/-- The frames the pipe is used for: a wrapper type and a payload length that fit into seven bits,
and a payload that is not empty. -/
structure SentFrame.Small (f : SentFrame) : Prop where
  type_lt : f.1 < 128
  length_pos : 1 ≤ f.2.length
  length_le : f.2.length ≤ 127

/-! ## Encoded frames are read back -/

lemma SentFrame.Small.readable {f : SentFrame} (h : f.Small) : f.Readable where
  type_lt := lt_trans h.type_lt (by decide)
  length_pos := h.length_pos
  length_lt := lt_of_le_of_lt h.length_le (by decide)
  type_safe := Or.inl (lt_of_le_of_lt (Nat.mod_le _ _) h.type_lt)
  length_safe := Or.inl (lt_of_le_of_lt (Nat.mod_le _ _) (Nat.lt_succ_of_le h.length_le))

/-- **A stream of readable frames is read back as written.** -/
lemma readFrames_encode : ∀ (fs : List SentFrame), (∀ f ∈ fs, SentFrame.Readable f) →
    readFrames (fs.flatMap SentFrame.encode) = (fs.map fun f => (SentFrame.header f, f.2), [])
  | [], _ => rfl
  | f :: fs, h => by
      have hf := (h f (by simp)).readFrames_encode (fs.flatMap SentFrame.encode)
      have ih := readFrames_encode fs fun g hg => h g (by simp [hg])
      rw [List.flatMap_cons, hf, ih, List.map_cons]

/-- The type and the payload of the frames read back. -/
lemma map_readFrames_encode {fs : List SentFrame} (hfs : ∀ f ∈ fs, SentFrame.Readable f) :
    (readFrames (fs.flatMap SentFrame.encode)).1.map (fun f => (f.1.proto.toNat, f.2)) = fs := by
  rw [readFrames_encode fs hfs, List.map_map]
  conv_rhs => rw [← List.map_id fs]
  refine List.map_congr_left fun f hf => ?_
  show ((SentFrame.header f).proto.toNat, f.2) = f
  rw [SentFrame.toNat_proto (hfs f hf).type_lt]

/-- The frames found in any part of a stream of readable frames are the first frames written. -/
lemma readFrames_prefix {fs : List SentFrame} {B : List UInt8}
    (hfs : ∀ f ∈ fs, SentFrame.Readable f) (hB : B <+: fs.flatMap SentFrame.encode) :
    (readFrames B).1.map (fun f => (f.1.proto.toNat, f.2)) <+: fs := by
  obtain ⟨more, hmore⟩ := hB
  have hp : (readFrames B).1 <+: (readFrames (B ++ more)).1 := frameExtractor.drain_prefix B more
  rw [hmore] at hp
  have hmap := hp.map fun f : Frame => (f.1.proto.toNat, f.2)
  rwa [map_readFrames_encode hfs] at hmap

/-! ## The two sides and the socket pair -/

/-- A pipe with its socket pair. -/
structure Mailbox where
  pipe : TpipeT
  /-- The bytes the socket has taken from a side and not yet given to the other. -/
  inFlight : Fin 2 → List UInt8
  /-- How many bytes the socket has taken from a side so far. -/
  taken : Fin 2 → ℕ
  /-- The frames of the calls of `write` on a side that returned 0. -/
  written : Fin 2 → List SentFrame

/-- What can happen to a mailbox. -/
inductive MailEvent where
  | write (os : Libc) (side : Fin 2) (wrapperType : ℕ) (wrapper pkt : ProtoMsg) (res : WriteResult)
  | evWrite (side : Fin 2) (res : WriteResult)
  /-- `on_ev_read`, where `::read` returns the first `n` bytes in flight, or `EAGAIN`. -/
  | evRead (os : Libc) (side : Fin 2) (n : Option ℕ)

namespace Mailbox

/-- The socket takes bytes from a side. -/
def take (m : Mailbox) (side : Fin 2) (bytes : List UInt8) : Mailbox :=
  { m with
    inFlight := Function.update m.inFlight side (m.inFlight side ++ bytes)
    taken := Function.update m.taken side (m.taken side + bytes.length) }

/-- One event. -/
def step (m : Mailbox) : MailEvent → Except Fault Mailbox
  | .write os side wrapperType wrapper pkt res => do
      let (pipe, ret, bytes) ← m.pipe.write os side wrapperType wrapper pkt res
      let m := { m with pipe }.take side bytes
      let sent := m.written side ++ [(wrapperType, payload wrapper pkt)]
      pure (if ret = 0 then { m with written := Function.update m.written side sent } else m)
  | .evWrite side res =>
      let (pipe, bytes) := m.pipe.onEvWrite (m.pipe.pinfo side).fd res
      pure ({ m with pipe }.take side bytes)
  | .evRead os side n => do
      let bytes := n.map fun n => (m.inFlight (peer side)).take n
      let pipe ← m.pipe.onEvRead os (m.pipe.pinfo side).fd (TpipeT.readOutcome bytes)
      pure { m with
        pipe
        inFlight := Function.update m.inFlight (peer side)
          ((m.inFlight (peer side)).drop (n.getD 0)) }

/-- Events as the pipe is used: messages that pack to the size they announce, into small frames; a
socket that takes some of what it is given or nothing, and gives some of what is in flight, at most
`MAX_PROTO_LEN` bytes at a time, or nothing. -/
def Allowed (m : Mailbox) : MailEvent → Prop
  | .write os _ wrapperType wrapper pkt res =>
      os.Total ∧ wrapper.Sized ∧ pkt.Sized ∧ SentFrame.Small (wrapperType, payload wrapper pkt) ∧
        res ≠ .fail
  | .evWrite _ res => res ≠ .fail
  | .evRead os side n =>
      os.Total ∧ ∀ k ∈ n, 0 < k ∧ k ≤ (m.inFlight (peer side)).length ∧ k ≤ maxProtoLen

/-- The socket takes nothing from a side it has taken something from before. -/
def TakesOnce (m : Mailbox) (side : Fin 2) : WriteResult → Prop
  | .accept n => n = 0 ∨ m.taken side = 0
  | _ => True

/-- The condition under which the pipe delivers: the socket takes from a side only once, and what is
written on a side stays below the range of the 32-bit positions. -/
def Once (m : Mailbox) : MailEvent → Prop
  | .write _ side _ wrapper pkt res =>
      m.TakesOnce side res ∧
        (m.pipe.pinfo side).wbuf.end_ + (payload wrapper pkt).length + msgHeaderLen < 2 ^ 32 - 128
  | .evWrite side res => m.TakesOnce side res
  | .evRead _ _ _ => True

/-- The states a mailbox reaches from `m₀` by allowed events that all satisfy `P`. -/
inductive Run (P : Mailbox → MailEvent → Prop) (m₀ : Mailbox) : Mailbox → Prop
  | refl : Run P m₀ m₀
  | step {m m' : Mailbox} {e : MailEvent} (h : Run P m₀ m) (ha : m.Allowed e) (hp : P m e)
      (hs : m.step e = .ok m') : Run P m₀ m'

/-- A new pipe with a callback on both sides, and nothing in flight. -/
def init (t : TpipeT) : Mailbox :=
  { pipe := t.initBoth
    inFlight := fun _ => []
    taken := fun _ => 0
    written := fun _ => [] }

/-- What the callbacks made on a side report: wrapper type and payload. -/
def delivered (m : Mailbox) (side : Fin 2) : List SentFrame :=
  (m.pipe.pinfo side).callbacks.map fun f => (f.1.proto.toNat, f.2)

end Mailbox

/-! ## What the calls do to the two sides -/

namespace TpipeT

/-- What a side has received does not depend on its poller. -/
lemma Reading.congr {t t' : TpipeT} {side : Fin 2} {B : List UInt8}
    (h : (t.pinfo side).Same (t'.pinfo side)) (hr : Reading t side B) : Reading t' side B := by
  constructor
  · rw [h.cbRead, hr.cbRead]
  · rw [h.rbuf]
    exact hr.rbuf
  · rw [h.rbuf]
    exact hr.bounded
  · rw [h.callbacks, hr.callbacks]

/-- The sides of a pipe are told apart by their descriptors. -/
lemma sideOf_fd {t : TpipeT} (hne : (t.pinfo 0).fd ≠ (t.pinfo 1).fd) (side : Fin 2) :
    t.sideOf (t.pinfo side).fd = some side := by
  fin_cases side
  · simp [sideOf]
  · simp [sideOf, hne.symm]

end TpipeT

/-! ## The invariant -/

namespace Mailbox

/-- What holds of a mailbox whose socket has taken from each side at most once.  The write buffer of
a side holds everything written there; the stream, received or in flight, is a prefix of it. -/
structure Inv (m : Mailbox) : Prop where
  fds : (m.pipe.pinfo 0).fd ≠ (m.pipe.pinfo 1).fd
  poller : ∀ s, (m.pipe.pinfo s).poller = true
  small : ∀ s, ∀ f ∈ m.written s, SentFrame.Small f
  wbuf : ∀ s, (m.pipe.pinfo s).wbuf.Refines ((m.written s).flatMap SentFrame.encode)
  stream : ∀ s, ∃ B, m.pipe.Reading (peer s) B ∧
    B ++ m.inFlight s <+: (m.written s).flatMap SentFrame.encode ∧
    (m.taken s = 0 → B ++ m.inFlight s = [])

/-- An attempt to flush keeps the invariant when the socket takes nothing or has taken nothing
before. -/
lemma Inv.flush {m : Mailbox} (hi : m.Inv) {side : Fin 2} {res : WriteResult}
    (honce : m.TakesOnce side res) :
    ({ m with pipe := (m.pipe.tryWrite side res).1 }.take side
      (m.pipe.tryWrite side res).2).Inv := by
  have hsame := m.pipe.tryWrite_same side res
  constructor
  · show ((m.pipe.tryWrite side res).1.pinfo 0).fd ≠ ((m.pipe.tryWrite side res).1.pinfo 1).fd
    rw [(hsame 0).fd, (hsame 1).fd]
    exact hi.fds
  · intro s
    exact (hsame s).poller.trans (hi.poller s)
  · exact hi.small
  · intro s
    show BufferT.Refines ((m.pipe.tryWrite side res).1.pinfo s).wbuf _
    rw [(hsame s).wbuf]
    exact hi.wbuf s
  · intro s
    obtain ⟨B, hB, hpre, hzero⟩ := hi.stream s
    refine ⟨B, hB.congr (hsame (peer s)), ?_⟩
    by_cases hs : s = side
    · subst hs
      simp only [take, Function.update_self]
      -- either nothing is taken now, or nothing was before and the buffer starts with what is
      have hcase : (m.pipe.tryWrite s res).2 = [] ∨ (m.taken s = 0 ∧
          ∃ n, (m.pipe.tryWrite s res).2
            = ((m.written s).flatMap SentFrame.encode).take n) := by
        rw [m.pipe.tryWrite_bytes]
        cases res with
        | again => exact Or.inl rfl
        | fail => exact Or.inl rfl
        | accept n =>
            rcases honce with rfl | h0
            · exact Or.inl (List.take_zero ..)
            · exact Or.inr ⟨h0, n, by rw [(hi.wbuf s).bytes_eq]⟩
      rcases hcase with hnil | ⟨h0, n, hn⟩
      · rw [hnil, List.append_nil, List.length_nil, Nat.add_zero]
        exact ⟨hpre, hzero⟩
      · have hempty := hzero h0
        rw [← List.append_assoc, hempty, List.nil_append, hn, h0]
        refine ⟨List.take_prefix _ _, fun hl => ?_⟩
        exact List.length_eq_zero_iff.mp (by omega)
    · simp only [take, Function.update_of_ne hs]
      exact ⟨hpre, hzero⟩

/-- Replacing the write buffer by one that holds one more frame keeps the invariant. -/
lemma Inv.append {m : Mailbox} (hi : m.Inv) {side : Fin 2} {f : SentFrame} {wbuf : BufferT}
    (hf : SentFrame.Small f)
    (hw : wbuf.Refines ((m.written side).flatMap SentFrame.encode ++ SentFrame.encode f)) :
    Inv { m with
      pipe := m.pipe.modify side fun p => { p with wbuf }
      written := Function.update m.written side (m.written side ++ [f]) } := by
  have hinfo : ∀ s, ((m.pipe.modify side fun p => { p with wbuf }).pinfo s)
      = if s = side then { m.pipe.pinfo s with wbuf } else m.pipe.pinfo s := by
    intro s
    split_ifs with hs
    · subst hs
      rw [TpipeT.modify_pinfo_self]
    · rw [TpipeT.modify_pinfo_of_ne _ _ hs]
  constructor
  · simp only [hinfo]
    split_ifs <;> exact hi.fds
  · intro s
    simp only [hinfo]
    split_ifs <;> exact hi.poller s
  · intro s g hg
    by_cases hs : s = side
    · subst hs
      simp only [Function.update_self, List.mem_append, List.mem_singleton] at hg
      rcases hg with hg | rfl
      · exact hi.small s g hg
      · exact hf
    · simp only [Function.update_of_ne hs] at hg
      exact hi.small s g hg
  · intro s
    by_cases hs : s = side
    · subst hs
      simp only [hinfo, if_true, Function.update_self, List.flatMap_append, List.flatMap_cons,
        List.flatMap_nil, List.append_nil]
      exact hw
    · simp only [hinfo, if_neg hs, Function.update_of_ne hs]
      exact hi.wbuf s
  · intro s
    obtain ⟨B, hB, hpre, hzero⟩ := hi.stream s
    refine ⟨B, ⟨?_, ?_, ?_, ?_⟩, ?_, hzero⟩
    · simp only [hinfo]
      split_ifs <;> exact hB.cbRead
    · simp only [hinfo]
      split_ifs <;> exact hB.rbuf
    · simp only [hinfo]
      split_ifs <;> exact hB.bounded
    · simp only [hinfo]
      split_ifs <;> exact hB.callbacks
    · by_cases hs : s = side
      · subst hs
        simp only [Function.update_self, List.flatMap_append]
        exact hpre.trans (List.prefix_append _ _)
      · simp only [Function.update_of_ne hs]
        exact hpre

/-- A read event keeps the invariant. -/
lemma Inv.read {m : Mailbox} (hi : m.Inv) {os : Libc} (ht : os.Total) {side : Fin 2}
    {n : Option ℕ} (hn : ∀ k ∈ n, k ≤ maxProtoLen) {m' : Mailbox}
    (h : m.step (.evRead os side n) = .ok m') : m'.Inv := by
  obtain ⟨B, hB, hpre, hzero⟩ := hi.stream (peer side)
  have hpeer := peer_peer side
  rw [hpeer] at hB
  set bytes := n.map fun n => (m.inFlight (peer side)).take n with hbytes
  have hlen : ∀ bs ∈ bytes, bs.length ≤ maxProtoLen := by
    intro bs hbs
    simp only [hbytes, Option.mem_def, Option.map_eq_some_iff] at hbs
    obtain ⟨k, hk, rfl⟩ := hbs
    exact le_trans (List.length_take_le _ _) (hn k hk)
  obtain ⟨buf, cbs, h₁, hB'⟩ := hB.onEvRead ht (TpipeT.sideOf_fd hi.fds side) bytes hlen
  have hm' : m' = { m with
      pipe := m.pipe.setReader side buf cbs
      inFlight := Function.update m.inFlight (peer side)
        ((m.inFlight (peer side)).drop (n.getD 0)) } := by
    rw [step] at h
    simp only [← hbytes, h₁, ok_bind] at h
    exact (Except.ok.inj h).symm
  have hsplit : bytes.getD [] ++ (m.inFlight (peer side)).drop (n.getD 0)
      = m.inFlight (peer side) := by
    cases n with
    | none => simp [hbytes]
    | some k => simp [hbytes]
  have hframe := m.pipe.setReader_frame side buf cbs
  subst hm'
  constructor
  · show ((m.pipe.setReader side buf cbs).pinfo 0).fd ≠ ((m.pipe.setReader side buf cbs).pinfo 1).fd
    rw [(hframe 0).1, (hframe 1).1]
    exact hi.fds
  · exact fun s => (hframe s).2.1.trans (hi.poller s)
  · exact hi.small
  · intro s
    simp only [(hframe s).2.2]
    exact hi.wbuf s
  · intro s
    by_cases hs : s = peer side
    · subst hs
      refine ⟨B ++ bytes.getD [], ?_, ?_, ?_⟩
      · rw [hpeer]
        exact hB'
      · simp only [Function.update_self]
        rw [List.append_assoc, hsplit]
        exact hpre
      · intro h0
        simp only [Function.update_self]
        rw [List.append_assoc, hsplit]
        exact hzero h0
    · obtain ⟨B₂, hB₂, hrest⟩ := hi.stream s
      have hne : peer s ≠ side := by
        intro h
        rw [← h, peer_peer] at hs
        exact hs rfl
      refine ⟨B₂, ?_, ?_⟩
      · have hsame := m.pipe.setReader_pinfo_of_ne buf cbs hne
        constructor
        · rw [hsame]; exact hB₂.cbRead
        · rw [hsame]; exact hB₂.rbuf
        · rw [hsame]; exact hB₂.bounded
        · rw [hsame]; exact hB₂.callbacks
      · simp only [Function.update_of_ne hs]
        exact hrest

/-- Every event that meets the condition keeps the invariant. -/
lemma Inv.step {m m' : Mailbox} {e : MailEvent} (hi : m.Inv) (ha : m.Allowed e) (ho : m.Once e)
    (h : m.step e = .ok m') : m'.Inv := by
  cases e with
  | evRead os side n => exact hi.read ha.1 (fun k hk => (ha.2 k hk).2.2) h
  | evWrite side res =>
      rw [Mailbox.step, TpipeT.onEvWrite, TpipeT.sideOf_fd hi.fds side] at h
      obtain rfl := Except.ok.inj h
      exact hi.flush ho
  | write os side wrapperType wrapper pkt res =>
      obtain ⟨-, hw, hp, hsmall, -⟩ := ha
      obtain ⟨⟨t', ret, bytes⟩, h₁, h⟩ := bind_eq_ok h
      obtain ⟨wbuf, hr, -, rfl, hflush⟩ :=
        TpipeT.write_eq_ok (hi.poller side) hw hp (hi.wbuf side) ho.2 h₁
      obtain ⟨rfl, rfl⟩ := Prod.mk.inj hflush
      obtain rfl := Except.ok.inj h
      exact (hi.append hsmall hr).flush ho.1

/-- A new mailbox. -/
lemma inv_init {os : Libc} {sv : Fin 2 → ℤ} {t : TpipeT} (hsv : sv 0 ≠ sv 1)
    (h : TpipeT.new os sv = .ok t) : (init t).Inv := by
  obtain ⟨wbuf, rbuf, hw, hr, rfl⟩ := TpipeT.new_eq_ok h
  have hfields : ∀ s,
      ((init { pinfo := fun i => ⟨sv i, wbuf, rbuf, false, false, [], []⟩ }).pipe.pinfo s).Same
        ⟨sv s, wbuf, rbuf, true, true, [], []⟩ := by
    intro s
    fin_cases s <;> exact ⟨rfl, rfl, rfl, rfl, rfl, rfl⟩
  constructor
  · rw [← (hfields 0).fd, ← (hfields 1).fd]
    exact hsv
  · exact fun s => (hfields s).poller.symm
  · intro s f hf
    exact absurd hf (List.not_mem_nil)
  · intro s
    rw [← (hfields s).wbuf]
    exact BufferT.new_refines (by decide) hw
  · intro s
    refine ⟨[], ⟨?_, ?_, ?_, ?_⟩, List.prefix_rfl, fun _ => rfl⟩
    · exact (hfields (peer s)).cbRead.symm
    · rw [← (hfields (peer s)).rbuf]
      exact BufferT.new_refines (by decide) hr
    · rw [← (hfields (peer s)).rbuf]
      exact TpipeT.bounded_new (by decide) hr
    · exact (hfields (peer s)).callbacks.symm

/-- The invariant gives the delivery property. -/
lemma Inv.delivered_prefix {m : Mailbox} (hi : m.Inv) (s : Fin 2) :
    m.delivered (peer s) <+: m.written s := by
  obtain ⟨B, hB, hpre, -⟩ := hi.stream s
  rw [delivered, hB.callbacks]
  exact readFrames_prefix (fun f hf => (hi.small s f hf).readable)
    ((List.prefix_append _ _).trans hpre)

/-- **What a pipe delivers.**  In every run whose events all find the socket unused or unwilling,
and at every moment of it, the callbacks made on one side report the first frames written on the
other: none lost before a later one, none twice, none torn. -/
theorem delivers_in_order {os : Libc} {sv : Fin 2 → ℤ} {t : TpipeT} (hsv : sv 0 ≠ sv 1)
    (hnew : TpipeT.new os sv = .ok t) {m : Mailbox} (hrun : Run Once (init t) m) (s : Fin 2) :
    m.delivered (peer s) <+: m.written s := by
  have hinv : m.Inv := by
    induction hrun with
    | refl => exact inv_init hsv hnew
    | step _ ha ho hs ih => exact ih.step ha ho hs
  exact hinv.delivered_prefix s

lemma plainMsg_sized (bs : List UInt8) : (plainMsg bs).Sized := ⟨bs, rfl, rfl⟩

/-- A write of the frame with wrapper type `ty` and payload `[b]`. -/
def plainWrite (side : Fin 2) (ty : ℕ) (b : UInt8) (res : WriteResult) : MailEvent :=
  .write zeroLibc side ty (plainMsg []) (plainMsg [b]) res

lemma allowed_plainWrite (m : Mailbox) (side : Fin 2) (ty : ℕ) (hty : ty < 128) (b : UInt8)
    (n : ℕ) : m.Allowed (plainWrite side ty b (.accept n)) :=
  ⟨zeroLibc_total, plainMsg_sized _, plainMsg_sized _,
    ⟨hty, le_refl 1, by simp [payload, plainMsg]⟩, by simp⟩

lemma allowed_read (m : Mailbox) {k : ℕ}
    (hk : 0 < k ∧ k ≤ (m.inFlight (peer 1)).length ∧ k ≤ maxProtoLen) :
    m.Allowed (.evRead zeroLibc 1 (some k)) :=
  ⟨zeroLibc_total, fun _ hn => Option.some.inj hn ▸ hk⟩

/-- A new pipe. -/
def somePipe : TpipeT :=
  let buf : BufferT := ⟨some fun _ => 0, 128000, 32000, 0, 32000, 0, 0⟩
  { pinfo := fun i => ⟨TpipeT.someFds i, buf, buf, false, false, [], []⟩ }

lemma new_somePipe : TpipeT.new zeroLibc TpipeT.someFds = .ok somePipe := rfl

/-- A frame is written, the socket takes it whole and the other side reads it. -/
theorem delivers_in_order_one_frame : ∃ m, Run Once (init somePipe) m ∧
    m.delivered (peer 0) = [(1, [7])] ∧ m.delivered (peer 0) <+: m.written 0 := by
  have h₁ : Run Once (init somePipe) _ :=
    .step .refl (allowed_plainWrite _ 0 1 (by decide) 7 5) ⟨Or.inr rfl, by decide⟩
      (show (init somePipe).step (plainWrite 0 1 7 (.accept 5)) = .ok _ from rfl)
  have h₂ : Run Once (init somePipe) _ :=
    .step h₁ (allowed_read _ (by decide)) trivial
      (show Mailbox.step _ (.evRead zeroLibc 1 (some 5)) = .ok _ from rfl)
  exact ⟨_, h₂, by decide, delivers_in_order (by decide) new_somePipe h₂ 0⟩

/-- **The second flush sends the first frame again.**  Two frames are written, the socket takes all
it is offered each time, and the other side reads everything: it is called back with the first frame
twice. -/
theorem delivers_in_order_fails : ∃ m, Run (fun _ _ => True) (init somePipe) m ∧
    m.written 0 = [(1, [7]), (2, [8])] ∧ m.delivered 1 = [(1, [7]), (1, [7]), (2, [8])] ∧
    ¬ m.delivered (peer 0) <+: m.written 0 := by
  have h₁ : Run (fun _ _ => True) (init somePipe) _ :=
    .step .refl (allowed_plainWrite _ 0 1 (by decide) 7 5) trivial
      (show (init somePipe).step (plainWrite 0 1 7 (.accept 5)) = .ok _ from rfl)
  have h₂ : Run (fun _ _ => True) (init somePipe) _ :=
    .step h₁ (allowed_plainWrite _ 0 2 (by decide) 8 10) trivial
      (show Mailbox.step _ (plainWrite 0 2 8 (.accept 10)) = .ok _ from rfl)
  have h₃ : Run (fun _ _ => True) (init somePipe) _ :=
    .step h₂ (allowed_read _ (by decide)) trivial
      (show Mailbox.step _ (.evRead zeroLibc 1 (some 15)) = .ok _ from rfl)
  exact ⟨_, h₃, by decide, by decide, by decide⟩

end Mailbox

end Axon
