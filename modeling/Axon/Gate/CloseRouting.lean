import Axon.Gate.Admission
import Axon.Gate.ClientIds

/-!
# The way back to the worker

The id of a connection carries the number of the worker it was sent to.  When the worker reports
that the peer is gone, the main thread takes the number out of the id again and answers that worker.
On the way the id is an unsigned field of `pb_cgate_newconn`, an `int` in `Connect` and a signed
field of `pb_conn_notify`.

* **`thrIdxFromHid_makeHid`**, **`inRange_makeHid`** : the id as an `int`, and the worker in it.
* **`Stored`**, **`Reported`**, **`Answered`** : the stations of an id.
* **`close_routed_back`** : from `on_accept_new_connect` to the mailbox of the same worker.
-/

namespace Axon

open Library

namespace Gate

open Codegen

section Ids

variable {s h : ℕ} (hs : s < 32) (hh : h < 2 ^ 26)

include hs hh

/-- The worker in an id. -/
lemma thrIdxFromHid_makeHid : thrIdxFromHid (ClientMgr.makeHid s h) = s := by
  rw [ClientMgr.makeHid_eq (by omega) hh, thrIdxFromHid, hidThrBits, hidThrMask,
    Int.shiftRight_eq_div_pow]
  push_cast
  omega

/-- With at most 32 workers the sign bit of an id is not used. -/
lemma inRange_makeHid : FieldType.int32.InRange (ClientMgr.makeHid s h) ∧
    FieldType.uint32.InRange (ClientMgr.makeHid s h) := by
  rw [ClientMgr.makeHid_eq (by omega) hh]
  constructor
  · rw [FieldType.InRange, FieldType.convert]
    exact Int.bmod_eq_of_le (by push_cast; omega) (by push_cast; omega)
  · rw [FieldType.InRange, FieldType.convert]
    omega

end Ids

/-! ## The stations of an id -/

/-- **A worker keeps** the descriptor and the id it calls `new_connect` with.  It has a connection
for them afterwards if its slots are in order and one of them is free. -/
def Stored (fd hid : ℤ) : Prop :=
  ∀ (w : ConnectWorker) (os : Libc) (a : ℕ) (ip port : ℤ),
    (∀ w' i, w.newConnect os a fd hid ip port = .ok (w', some i) →
      (w'.container.connects i).fd = fd ∧ (w'.container.connects i).hid = hid) ∧
    ∀ n used, w.Sound n used → used.card < n → w.poller.PendingSound →
      ¬ w.poller.pendingNew.entries.Live a → os.Total → 0 ≤ fd →
      ∃ w' i, w.newConnect os a fd hid ip port = .ok (w', some i)

/-- **A worker reports** a connection with this descriptor and this id with both of them. -/
def Reported (fd hid : ℤ) : Prop :=
  ∀ (w : ConnectWorker) (os : Libc) (c : Connect) (res : WriteResult), c.fd = fd → c.hid = hid →
    os.Total → w.mailbox.CanWrite ConnectWorker.side (2 + width pbConnNotify.fields) →
    ∃ w', w.waitClose os c res = .ok w' ∧
      (w'.mailbox.pinfo ConnectWorker.side).wbuf.bytes =
        (w.mailbox.pinfo ConnectWorker.side).wbuf.bytes ++
          SentFrame.encode (gateFrame ptConnNotify (ConnectWorker.connNotify fd hid))

/-- **A main thread with `num` workers answers** the report with a message to the worker `idx`, and
no assertion fails. -/
def Answered (num idx : ℕ) (fd hid : ℤ) : Prop :=
  ∀ (m : ClientMgr) (os : Libc) (mem : ℕ → UInt8) (header : MsgHeader) (p : ℕ) (res : WriteResult),
    m.workerNum = num →
    Delivered (gateFrame ptConnNotify (ConnectWorker.connNotify fd hid)) mem header p →
    m.onMailboxRead os mem header p res =
        m.post os idx ptConnCtrl (ClientMgr.connCtrl fd hid).proto res ∧
      (os.Total → m.CanPost idx (width pbConnCtrl.fields) →
        ∃ m', m.onMailboxRead os mem header p res = .ok m' ∧ m'.posted idx = m.posted idx ++
          SentFrame.encode (gateFrame ptConnCtrl (ClientMgr.connCtrl fd hid)))

/-- A connection that has been made has the descriptor and the id. -/
lemma newConnect_keeps {w w' : ConnectWorker} {os : Libc} {a i : ℕ} {fd hid ip port : ℤ}
    (h : w.newConnect os a fd hid ip port = .ok (w', some i)) :
    (w'.container.connects i).fd = fd ∧ (w'.container.connects i).hid = hid := by
  obtain ⟨⟨t, vfd⟩, -, h⟩ := bind_eq_ok h
  dsimp only at h
  split_ifs at h with hneg
  · exact absurd (Prod.mk.inj (Except.ok.inj h)).2 (by simp)
  split at h
  · exact absurd h (by simp)
  obtain ⟨⟨c, ret⟩, hinit, h⟩ := bind_eq_ok h
  obtain ⟨rfl, -, -, rb, wb, -, -, rfl⟩ := ConnectContainer.init_eq_ok hinit
  dsimp only at h
  rw [if_neg (by decide)] at h
  obtain ⟨⟨p, v⟩, -, h⟩ := bind_eq_ok h
  obtain ⟨rfl, hi⟩ := Prod.mk.inj (Except.ok.inj h)
  obtain rfl := Option.some.inj hi
  simp [ConnectWorker.setConn, Connect.setStatus]

lemma stored (fd hid : ℤ) : Stored fd hid := by
  intro w os a ip port
  refine ⟨fun w' i h => ?_, fun n used hsound hroom hpending hfresh hos hfd => ?_⟩
  · exact newConnect_keeps h
  · obtain ⟨t, i, -, heq⟩ := hsound.newConnect_eq hroom hos hfd hid ip port
    obtain ⟨p, v, hadd⟩ := hpending.addFd_returns hfresh fd (connReactor i)
    refine ⟨{ w with container := t, poller := p }, i, ?_⟩
    rw [heq a, hadd]
    rfl

lemma reported (fd hid : ℤ) : Reported fd hid := by
  intro w os c res hfd hhid ht hcan
  obtain ⟨t, hwait, -, hrefines⟩ := ConnectWorker.waitClose_eq ht hcan hfd hhid res
  exact ⟨_, hwait, hrefines.bytes_eq⟩

section Reading

variable {mem : ℕ → UInt8} {header : MsgHeader} {p : ℕ} {fd hid : ℤ}
  (hfd : FieldType.int32.InRange fd) (hhid : FieldType.int32.InRange hid)
  (h : Delivered (gateFrame ptConnNotify (ConnectWorker.connNotify fd hid)) mem header p)

include hfd hhid h

/-- The fields of a report. -/
lemma connNotify_delivered : ∃ q remain pkt,
    ClientMgr.dispatch mem header p = some (ptConnNotify, q, remain) ∧
      unpack pbConnNotify zeroed mem (some q) (ConnectWorker.asUint32 remain) =
        (pkt, (width pbConnNotify.fields : ℤ)) ∧
      pkt .fd = fd ∧ pkt .hid = hid ∧ pkt .action = peerClose := by
  have hfit : width pbConnNotify.fields < 126 := by decide
  obtain ⟨pkt, hunpack, -, hmember⟩ := h.unpack_inner hfit
  exact ⟨_, _, pkt, h.mgr_dispatch hfit (by decide), hunpack,
    (hmember ⟨.fd, .int32⟩ (by simp [pbConnNotify]) (by decide)).trans hfd,
    (hmember ⟨.hid, .int32⟩ (by simp [pbConnNotify]) (by decide)).trans hhid,
    hmember ⟨.action, .int8⟩ (by simp [pbConnNotify]) (by decide)⟩

/-- What the main thread does with it. -/
lemma processConnNotify_delivered (m : ClientMgr) (os : Libc) (res : WriteResult) :
    m.onMailboxRead os mem header p res = m.sendWorkerCtrl os ptConnCtrl (thrIdxFromHid hid)
      (ClientMgr.connCtrl fd hid).proto res := by
  obtain ⟨q, remain, pkt, hdispatch, hunpack, hpfd, hphid, haction⟩ :=
    connNotify_delivered hfd hhid h
  rw [ClientMgr.onMailboxRead, hdispatch]
  dsimp only
  rw [if_neg (by decide), if_pos rfl, ClientMgr.processConnNotify, hunpack]
  dsimp only
  rw [if_neg (by omega), if_pos haction, hpfd, hphid]

end Reading

lemma answered {num idx : ℕ} {fd hid : ℤ} (hfd : FieldType.int32.InRange fd)
    (hhid : FieldType.int32.InRange hid) (hthr : thrIdxFromHid hid = idx) (hidx : idx < num) :
    Answered num idx fd hid := by
  intro m os mem header p res hnum hdel
  have hpost : m.onMailboxRead os mem header p res =
      m.post os idx ptConnCtrl (ClientMgr.connCtrl fd hid).proto res := by
    rw [processConnNotify_delivered hfd hhid hdel m os res, hthr, ClientMgr.sendWorkerCtrl,
      rtAssert_of_pos (by omega), ok_bind, Int.toNat_natCast]
  refine ⟨hpost, fun ht hcan => ?_⟩
  obtain ⟨t, hok, hposted, -⟩ := ClientMgr.post_appends ht (by decide) hcan ptConnCtrl
    (ClientMgr.connCtrl fd hid) res
  exact ⟨_, hpost.trans hok, hposted⟩

/-- **A close is routed back.**  For every state of a main thread with 1 to 32 workers, whatever its
counter is, and every connection it accepts: the worker selected is one of the workers, and the
number in the id is that worker.  The id is posted to that worker, arrives there as it was sent, is
kept in the connection, which the worker has if it had a slot free, and sent back in the report, and
the main thread answers the report with a message for the same descriptor and the same id to that
worker. -/
theorem close_routed_back {m m' : ClientMgr} {os : Libc} {sockfd : ℤ} {ip port hid : ℕ}
    {res : WriteResult} (hpos : 0 < m.workerNum) (hmax : m.workerNum ≤ 32)
    (hfd : FieldType.int32.InRange sockfd)
    (haccept : m.onAcceptNewConnect os sockfd ip port res = .ok (m', hid)) :
    m.selectWorker < m.workerNum ∧ thrIdxFromHid hid = m.selectWorker ∧
      (os.Total → m.CanPost m.selectWorker (width pbCgateNewconn.fields) →
        m'.posted m.selectWorker = m.posted m.selectWorker ++
          SentFrame.encode (gateFrame ptCgateNewconn (ClientMgr.newconn sockfd hid ip port))) ∧
      (∀ mem header p,
        Delivered (gateFrame ptCgateNewconn (ClientMgr.newconn sockfd hid ip port)) mem header p →
        ∃ ip' port',
          ConnectWorker.newconnArgs mem header p = some (sockfd, (hid : ℤ), ip', port')) ∧
      Stored sockfd hid ∧ Reported sockfd hid ∧
      Answered m.workerNum m.selectWorker sockfd hid := by
  have hlt := ClientMgr.selectWorker_lt hpos
  have hs : m.selectWorker < 32 := Nat.lt_of_lt_of_le hlt hmax
  obtain ⟨rfl, -⟩ := ClientMgr.onAccept_eq_ok haccept
  have hthr := thrIdxFromHid_makeHid hs m.nextHid_lt
  obtain ⟨hint, huint⟩ := inRange_makeHid hs m.nextHid_lt
  refine ⟨hlt, hthr, fun ht hcan => ?_, fun mem header p hdel => ?_, stored _ _, reported _ _,
    answered hfd hint hthr hlt⟩
  · obtain ⟨_, hin, -⟩ := bind_eq_ok haccept
    obtain ⟨t, hok, hposted, -⟩ := ClientMgr.onAccept_posts ht (rtAssert_eq_ok hin) hcan sockfd ip
      port res
    obtain ⟨rfl, -⟩ := Prod.mk.inj (Except.ok.inj (hok.symm.trans haccept))
    exact hposted
  · have hmemfd : (ClientMgr.newconn sockfd (ClientMgr.makeHid m.selectWorker m.nextHid) ip
        port).member .fd = sockfd := hfd
    have hmemhid : (ClientMgr.newconn sockfd (ClientMgr.makeHid m.selectWorker m.nextHid) ip
        port).member .hid = ClientMgr.makeHid m.selectWorker m.nextHid := huint
    rw [newconnArgs_delivered hdel, hmemfd, hmemhid]
    exact ⟨_, _, by rw [hint]⟩

/-- A main thread with 32 workers of which only the first has a connection, and whose counter is
about to wrap. -/
def someBusyMgr (t : TpipeT) : ClientMgr where
  workerNum := 32
  inited := true
  hid := 2 ^ 26 - 1
  workers := fun i => ⟨if i = 0 then 1 else 0, 100, .active, t.init ClientMgr.side true⟩
  listens := 0

/-- It sends the next connection to its second worker, and answers that worker. -/
theorem close_routed_back_wrapped : ∃ t m' hid,
    (someBusyMgr t).onAcceptNewConnect zeroLibc 5 0x7F000001 80 .again = .ok (m', hid) ∧
      hid = 2 ^ 26 ∧ thrIdxFromHid hid = 1 ∧ Answered 32 1 5 hid := by
  obtain ⟨t, hnew⟩ : ∃ t, TpipeT.new zeroLibc TpipeT.someFds = .ok t := ⟨_, rfl⟩
  have hcan : (someBusyMgr t).CanPost (someBusyMgr t).selectWorker (width pbCgateNewconn.fields) :=
    TpipeT.canWrite_init hnew ClientMgr.side (by decide)
  obtain ⟨t', haccept, -⟩ := ClientMgr.onAccept_posts zeroLibc_total rfl hcan 5 0x7F000001 80 .again
  obtain ⟨-, hthr, -, -, -, -, hans⟩ :=
    close_routed_back (Nat.succ_pos 31) (Nat.le_refl 32) (by decide) haccept
  have hsel : (someBusyMgr t).selectWorker = 1 := rfl
  have hcount : (someBusyMgr t).hid = 2 ^ 26 - 1 := rfl
  have hnext : (someBusyMgr t).nextHid = 0 := by
    rw [ClientMgr.nextHid_eq, hcount]
    decide
  refine ⟨t, _, _, haccept, ?_, hthr, hans⟩
  rw [hsel, hnext, ClientMgr.makeHid_eq (by decide) (by decide)]
  decide

end Gate

end Axon
