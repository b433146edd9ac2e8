import Axon.Core.TpipeFrames
import Axon.Gate.ClientMgr

/-!
# The gate protocol

Every message between the main thread and a worker is one frame on a mailbox: the wrapper
`pb_cgate_ctrl`, two bytes with the command, and the message itself.  The receiver unpacks the
wrapper, advances its pointer, and unpacks the message.

* **`gateFrame`** : the frame of a message.
* **`Delivered`** : what a callback of the mailbox gets for a frame.
* **`Delivered.unpack_wrapper`**, **`Delivered.unpack_inner`** : what the two calls of `unpack`
  read.
* **`messages_read_iff`** : the messages that are read as they were sent.
-/

namespace Axon

open Library

namespace Gate

open Codegen

/-- A length passed as a `uint32_t`. -/
lemma ConnectWorker.asUint32_natCast {n : ℕ} (hn : n < 2 ^ 32) :
    ConnectWorker.asUint32 n = n := by
  rw [ConnectWorker.asUint32]
  omega

lemma fieldLen_le_of_ne {ft : FieldType} (h : ft ≠ .uint64) : fieldLen ft ≤ 4 := by
  cases ft <;> first | decide | exact absurd rfl h

section Frames

variable {body : Body GateField} {cmd : ℤ} {r : Record body}

/-- The frame of a message behind the wrapper that announces it. -/
def gateFrame (cmd : ℤ) (r : Record body) : SentFrame :=
  (ptCgateCtrl, Mailbox.payload (cgateCtrl cmd).proto r.proto)

/-- A call of `on_mailbox_read` for a frame: its header, and its payload in memory at `p`. -/
structure Delivered (f : SentFrame) (mem : ℕ → UInt8) (header : MsgHeader) (p : ℕ) : Prop where
  header_eq : header = SentFrame.header f
  payload_eq : window mem p f.2.length = f.2

/-- The bytes of the wrapper. -/
def wrapperBytes (cmd : ℤ) : List UInt8 := encodeFields pbCgateCtrl.fields (cgateCtrl cmd).member

lemma length_wrapperBytes (cmd : ℤ) : (wrapperBytes cmd).length = 2 := rfl

lemma cgateCtrl_cmd (hcmd : FieldType.int16.InRange cmd) : (cgateCtrl cmd).member .cmd = cmd := hcmd

section Sized

variable (hfit : width body.fields < 126)

include hfit

lemma gateFrame_payload :
    (gateFrame cmd r).2 = wrapperBytes cmd ++ encodeFields body.fields r.member := by
  rw [gateFrame, Mailbox.payload, Record.proto_pack (by decide) (clear_gate _),
    Record.proto_pack (Nat.lt_trans hfit (by decide)) (clear_gate body)]
  rfl

lemma length_gateFrame : (gateFrame cmd r).2.length = 2 + width body.fields := by
  rw [gateFrame_payload hfit, List.length_append, length_wrapperBytes, length_encodeFields]

/-- The header of a gate message is safe from the signed `char`. -/
lemma gateFrame_readable : (gateFrame cmd r).Readable where
  type_lt := show ptCgateCtrl < 2 ^ 16 by decide
  length_pos := by rw [length_gateFrame hfit]; omega
  length_lt := by rw [length_gateFrame hfit]; omega
  type_safe := show SignSafe ptCgateCtrl by decide
  length_safe := by
    rw [length_gateFrame hfit]
    exact Or.inl (by omega)

/-- A gate message is appended to the mailbox as one frame, and called back about as that frame. -/
lemma gateFrame_survives (cmd : ℤ) (r : Record body) :
    FrameSurvives ptCgateCtrl (cgateCtrl cmd).proto r.proto := by
  have hw := ((cgateCtrl cmd).proto_sized (by decide) (clear_gate _)).trueSize
  have hp := (r.proto_sized (Nat.lt_trans hfit (by decide)) (clear_gate body)).trueSize
  refine ⟨writeAppends hw hp, fun ws ps hws hps => ?_⟩
  have hframe : gateFrame cmd r = (ptCgateCtrl, ws ++ ps) := by
    rw [gateFrame, Mailbox.payload, hws, hps]
    rfl
  rw [← hframe]
  exact (gateFrame_readable hfit).readBack

/-- A thread that can write to its mailbox appends the frame of a gate message to it. -/
lemma write_gateFrame {os : Libc} {t : TpipeT} {side : Fin 2} (ht : os.Total)
    (hcan : t.CanWrite side (2 + width body.fields)) (cmd : ℤ) (r : Record body)
    (res : WriteResult) :
    ∃ t' sent, t.write os side ptCgateCtrl (cgateCtrl cmd).proto r.proto res = .ok (t', 0, sent) ∧
      (t'.pinfo side).poller = true ∧ (t'.pinfo side).wbuf.Refines
        ((t.pinfo side).wbuf.bytes ++ SentFrame.encode (gateFrame cmd r)) ∧
      (t'.pinfo side).wbuf.end_ ≤
        (t.pinfo side).wbuf.end_ + (2 + width body.fields) + msgHeaderLen := by
  have hfit' : width body.fields < 2 ^ 31 := Nat.lt_trans hfit (by decide)
  have hw := (cgateCtrl cmd).proto_pack (by decide) (clear_gate _)
  have hp := r.proto_pack hfit' (clear_gate body)
  have hwl : (cgateCtrl cmd).proto.calSize = 2 := rfl
  obtain ⟨t', sent, hwrite, -⟩ := TpipeT.write_appends ht
    (by rwa [hwl, r.proto_calSize hfit']) hw rfl hp
    (by rw [length_encodeFields, r.proto_calSize hfit']) res
  have hroom := hcan.room
  have hlen : (Mailbox.payload (cgateCtrl cmd).proto r.proto).length = 2 + width body.fields :=
    length_gateFrame hfit
  obtain ⟨wbuf, hrefines, hend, -, hflush⟩ := TpipeT.write_eq_ok hcan.poller
    ((cgateCtrl cmd).proto_sized (by decide) (clear_gate _))
    (r.proto_sized hfit' (clear_gate body)) hcan.refines (by rw [hlen]; omega) hwrite
  have hsame := TpipeT.tryWrite_same (t.modify side fun p => { p with wbuf }) side res side
  rw [← congrArg Prod.fst hflush] at hsame
  refine ⟨t', sent, hwrite, ?_, ?_, ?_⟩
  · rw [hsame.poller, TpipeT.modify_pinfo_self]
    exact hcan.poller
  · rw [hsame.wbuf, TpipeT.modify_pinfo_self]
    exact hrefines
  · rw [hsame.wbuf, TpipeT.modify_pinfo_self]
    exact hlen ▸ hend

end Sized

namespace Delivered

variable {mem : ℕ → UInt8} {header : MsgHeader} {p : ℕ}
  (hfit : width body.fields < 126) (h : Delivered (gateFrame cmd r) mem header p)

include hfit h

lemma proto_eq : header.proto.toNat = ptCgateCtrl := by
  rw [h.header_eq, SentFrame.toNat_proto (gateFrame_readable hfit).type_lt]
  rfl

lemma plLen_eq : header.plLen.toNat = 2 + width body.fields := by
  rw [h.header_eq, SentFrame.toNat_plLen (gateFrame_readable hfit).length_lt, length_gateFrame hfit]

lemma windows : window mem p 2 = wrapperBytes cmd ∧
    window mem (p + 2) (width body.fields) = encodeFields body.fields r.member := by
  have hpay := h.payload_eq
  rw [length_gateFrame hfit, gateFrame_payload hfit, window_append] at hpay
  exact List.append_inj hpay (by rw [length_window, length_wrapperBytes])

/-- The wrapper is read as packed, and takes two bytes; the message takes the rest. -/
lemma unpack_wrapper (hcmd : FieldType.int16.InRange cmd) :
    (header.plLen.toNat : ℤ) - 2 = width body.fields ∧
    ∃ ctrl, unpack pbCgateCtrl zeroed mem (some p) (ConnectWorker.asUint32 header.plLen.toNat) =
      (ctrl, 2) ∧ ctrl .cmd = cmd := by
  rw [h.plLen_eq hfit, ConnectWorker.asUint32_natCast (by omega)]
  refine ⟨by omega, _, unpack_eq (by decide) (clear_gate _) zeroed mem p (Nat.le_add_right 2 _), ?_⟩
  have hdec := decodeFields_encodeFields pbCgateCtrl.nodup (h.windows hfit).1 zeroed
    (f := ⟨.cmd, .int16⟩) (List.mem_singleton.mpr rfl)
  dsimp only at hdec
  rw [hdec, cgateCtrl_cmd hcmd]
  exact decodeField_leBytes (by decide) hcmd

/-- Unpacked from right behind the wrapper, the message has the fields that were packed; those of up
to 32 bits come back as they were. -/
lemma unpack_inner :
    ∃ pkt, unpack body zeroed mem (some (p + 2)) (ConnectWorker.asUint32 (width body.fields)) =
        (pkt, (width body.fields : ℤ)) ∧
      (∀ f ∈ body.fields, pkt f.name =
        decodeField f.type (byteAt (leBytes (fieldLen f.type) (r.member f.name))) 0) ∧
      ∀ f ∈ body.fields, f.type ≠ .uint64 → pkt f.name = r.member f.name := by
  have hfields := fun f hf =>
    decodeFields_encodeFields (f := f) body.nodup (h.windows hfit).2 zeroed hf
  rw [ConnectWorker.asUint32_natCast (by omega)]
  refine ⟨_, unpack_eq (Nat.lt_trans hfit (by decide)) (clear_gate body) zeroed mem (p + 2)
    (Nat.le_refl _), hfields, fun f hf htype => ?_⟩
  rw [hfields f hf]
  exact decodeField_leBytes (fieldLen_le_of_ne htype) (r.typed f hf)

/-- The worker passes a new connection on with the pointer behind the wrapper, and every other
message with a pointer two bytes further on. -/
lemma worker_dispatch (hcmd : FieldType.int16.InRange cmd) :
    ConnectWorker.dispatch mem header p =
      some (cmd, if cmd = ptCgateNewconn then p + 2 else p + 4, (width body.fields : ℤ)) := by
  obtain ⟨hremain, ctrl, hunpack, hctrl⟩ := h.unpack_wrapper hfit hcmd
  rw [ConnectWorker.dispatch, if_pos (h.proto_eq hfit), hunpack]
  dsimp only
  rw [if_neg (by decide), hctrl, hremain]
  by_cases hnew : cmd = ptCgateNewconn
  · rw [if_pos hnew, if_pos hnew, hnew]
    rfl
  · rw [if_neg hnew, if_neg hnew]
    rfl

/-- The main thread passes every message on with the pointer behind the wrapper. -/
lemma mgr_dispatch (hcmd : FieldType.int16.InRange cmd) :
    ClientMgr.dispatch mem header p = some (cmd, p + 2, (width body.fields : ℤ)) := by
  obtain ⟨hremain, ctrl, hunpack, hctrl⟩ := h.unpack_wrapper hfit hcmd
  rw [ClientMgr.dispatch, if_pos (h.proto_eq hfit), hunpack]
  dsimp only
  rw [if_neg (by decide), hctrl, hremain]
  rfl

end Delivered

end Frames

/-- **The main thread is told** about a connection: `wait_close` puts one notification into the
mailbox. -/
lemma ConnectWorker.waitClose_eq {w : ConnectWorker} {os : Libc} (ht : os.Total)
    (hcan : w.mailbox.CanWrite side (2 + width pbConnNotify.fields)) {c : Connect} {fd hid : ℤ}
    (hfd : c.fd = fd) (hhid : c.hid = hid) (wres : WriteResult) :
    ∃ t, w.waitClose os c wres =
        .ok { w with poller := (w.poller.waitClose fd).1, mailbox := t } ∧
      (t.pinfo side).poller = true ∧ (t.pinfo side).wbuf.Refines
        ((w.mailbox.pinfo side).wbuf.bytes ++
          SentFrame.encode (gateFrame ptConnNotify (connNotify fd hid))) := by
  obtain ⟨t, sent, hwrite, hpoll, hrefines, -⟩ :=
    write_gateFrame (by decide) ht hcan ptConnNotify (connNotify fd hid) wres
  refine ⟨t, ?_, hpoll, hrefines⟩
  rw [waitClose, hfd, hhid, sendWorkerCommand, hwrite]
  rfl

/-! ## The messages -/

/-- The messages of the gate protocol. -/
inductive Kind where
  /-- `PT_CGATE_NEWCONN`, from `on_accept_new_connect`. -/
  | newconn
  /-- `PT_CONN_CTRL`, from `send_worker_ctrl`. -/
  | connCtrl
  /-- `PT_WORKER_NOTIFY`, from `send_worker_command`. -/
  | workerNotify
  /-- `PT_CONN_NOTIFY`, from `send_worker_command`. -/
  | connNotify
deriving DecidableEq, Repr

namespace Kind

/-- The class of the message. -/
def body : Kind → Body GateField
  | .newconn => pbCgateNewconn
  | .connCtrl => pbConnCtrl
  | .workerNotify => pbWorkerNotify
  | .connNotify => pbConnNotify

/-- The command the wrapper announces. -/
def cmd : Kind → ℤ
  | .newconn => ptCgateNewconn
  | .connCtrl => ptConnCtrl
  | .workerNotify => ptWorkerNotify
  | .connNotify => ptConnNotify

/-- `on_mailbox_read` of the receiver, up to the call of `unpack` for the message. -/
def dispatch : Kind → (ℕ → UInt8) → MsgHeader → ℕ → Option (ℤ × ℕ × ℤ)
  | .newconn | .connCtrl => ConnectWorker.dispatch
  | .workerNotify | .connNotify => ClientMgr.dispatch

lemma width_lt (k : Kind) : width k.body.fields < 126 := by cases k <;> decide

lemma inRange_cmd (k : Kind) : FieldType.int16.InRange k.cmd := by cases k <;> decide

/-- Where the receiver of a message looks for it. -/
lemma dispatch_eq (k : Kind) {r : Record k.body} {mem : ℕ → UInt8} {header : MsgHeader} {p : ℕ}
    (h : Delivered (gateFrame k.cmd r) mem header p) :
    k.dispatch mem header p =
      some (k.cmd, if k = .connCtrl then p + 4 else p + 2, (width k.body.fields : ℤ)) := by
  cases k with
  | newconn => exact h.worker_dispatch (width_lt .newconn) (inRange_cmd .newconn)
  | connCtrl => exact h.worker_dispatch (width_lt .connCtrl) (inRange_cmd .connCtrl)
  | workerNotify => exact h.mgr_dispatch (width_lt .workerNotify) (inRange_cmd .workerNotify)
  | connNotify => exact h.mgr_dispatch (width_lt .connNotify) (inRange_cmd .connNotify)

/-- **A message is read as it was sent**: the mailbox delivers it as one frame, and wherever the
payload of that frame is in memory, the receiver unpacks the message from right behind the two bytes
of the wrapper, with no byte beyond the payload, and gets the fields that were packed, those of 64
bits apart. -/
def ReadAsSent (k : Kind) (r : Record k.body) : Prop :=
  FrameSurvives ptCgateCtrl (cgateCtrl k.cmd).proto r.proto ∧
  ∀ mem header p, Delivered (gateFrame k.cmd r) mem header p →
    ∃ q remain pkt, k.dispatch mem header p = some (k.cmd, q, remain) ∧ q = p + 2 ∧
      q + calSize k.body ≤ p + header.plLen.toNat ∧
      unpack k.body zeroed mem (some q) (ConnectWorker.asUint32 remain) = (pkt, calSize k.body) ∧
      ∀ f ∈ k.body.fields, f.type ≠ .uint64 → pkt f.name = r.member f.name

end Kind

/-- The payload of a frame by itself in memory. -/
lemma delivered_byteAt (f : SentFrame) : Delivered f (byteAt f.2) (SentFrame.header f) 0 :=
  ⟨rfl, window_byteAt f.2⟩

/-- **Which messages are read as they were sent.**  For every message of the gate protocol and all
field values, both ends read the same message if and only if it is not `PT_CONN_CTRL`. -/
theorem messages_read_iff (k : Kind) (r : Record k.body) : k.ReadAsSent r ↔ k ≠ .connCtrl := by
  have hfit := k.width_lt
  constructor
  · rintro ⟨-, hread⟩ rfl
    have hdel := delivered_byteAt (gateFrame Kind.connCtrl.cmd r)
    obtain ⟨q, remain, pkt, hdisp, hq, -⟩ := hread _ _ 0 hdel
    rw [Kind.dispatch_eq _ hdel] at hdisp
    have hq' : 4 = q := (Prod.mk.inj (Prod.mk.inj (Option.some.inj hdisp)).2).1
    omega
  · intro hk
    refine ⟨gateFrame_survives hfit k.cmd r, fun mem header p h => ?_⟩
    obtain ⟨pkt, hunpack, -, hfields⟩ := h.unpack_inner hfit
    have hsize : calSize k.body = width k.body.fields := calSize_eq (Nat.lt_trans hfit (by decide))
    refine ⟨p + 2, width k.body.fields, pkt, ?_, rfl, ?_, ?_, hfields⟩
    · rw [Kind.dispatch_eq _ h, if_neg hk]
    · rw [hsize, h.plLen_eq hfit]
      omega
    · rw [hsize]
      exact hunpack

/-- The message that asks a worker to close the connection 7 on the descriptor 9 is looked for two
bytes too far, where its last two bytes are not part of the frame. -/
theorem messages_read_fails :
    ¬ Kind.ReadAsSent .connCtrl (ClientMgr.connCtrl 9 7) ∧
    ∃ mem header p, Delivered (gateFrame ptConnCtrl (ClientMgr.connCtrl 9 7)) mem header p ∧
      header.plLen.toNat = 11 ∧ ConnectWorker.dispatch mem header p = some (ptConnCtrl, p + 4, 9) ∧
      calSize pbConnCtrl = 9 ∧
      (ConnectWorker.processConnCtrl mem (p + 4) 9).1 .fd = 7 * 2 ^ 16 := by
  have hdel := delivered_byteAt (gateFrame ptConnCtrl (ClientMgr.connCtrl 9 7))
  have hdisp := hdel.worker_dispatch (by decide) (by decide)
  refine ⟨fun ⟨_, hread⟩ => ?_, _, _, 0, hdel, rfl, hdisp, rfl, by decide⟩
  obtain ⟨q, remain, pkt, hd, hq, -⟩ := hread _ _ 0 hdel
  have hq' : 4 = q := (Prod.mk.inj (Prod.mk.inj (Option.some.inj (hdisp.symm.trans hd))).2).1
  omega

end Gate

end Axon
