import Axon.Gate.ConnectWorker

/-!
# The main thread of the gate

`client_mgr.cc`: the main thread accepts client sockets, gives each an id and sends it to a worker;
it listens to what the workers report and answers them.

An id is 32 bits: the number of the worker in the upper 6, a counter in the lower 26.

* **`ClientMgr.onAcceptNewConnect`** : gives out ids.
* **`ClientMgr.dispatch`**, **`processConnNotify`**, **`processWorkerCommand`** : messages from the
  workers.
* **`thrIdxFromHid`** : the worker an id belongs to.
-/

namespace Axon

open Library

namespace Gate

open Codegen

/-- `HID_THR_BITS`. -/
def hidThrBits : ℕ := 26

/-- `HID_THR_MASK`. -/
def hidThrMask : ℕ := 0x3F

/-- `THR_IDX_FROM_HID(h)` for an `int`; of a two's complement `& 0x3F` leaves the remainder by 64.
-/
def thrIdxFromHid (h : ℤ) : ℤ := (h >>> hidThrBits) % (hidThrMask + 1)

/-- The status of a worker thread. -/
inductive WrkStatus where
  | null
  | start
  | active
deriving DecidableEq, Repr

/-- `thread_worker_t`. -/
structure ThreadWorker where
  activeConn : ℤ
  maxConn : ℤ
  status : WrkStatus
  mailbox : TpipeT

/-- The fields of `ClientMgr`. -/
structure ClientMgr where
  workerNum : ℕ
  inited : Bool
  /-- The counter for the ids of new connections. -/
  hid : ℕ
  workers : ℕ → ThreadWorker
  /-- How often `listen()` has been called. -/
  listens : ℕ

namespace ClientMgr

/-- The mailboxes are used by the main thread from side 0. -/
def side : Fin 2 := peer ConnectWorker.side

/-- `ClientMgr::ClientMgr` and `ClientMgr::init`; `mailbox i` is the pipe of the `i`-th element of
`workers_`, and `junk` what its other members hold. -/
def init (junk : ℕ → ThreadWorker) (mailbox : ℕ → TpipeT) (workerNum : ℤ) :
    Except Fault ClientMgr := do
  rtAssert "worker_num > 0" (0 < workerNum)
  let workerNum := if 32 < workerNum then 32 else workerNum
  pure
    { workerNum := workerNum.toNat, inited := true, hid := 1
      workers := fun i => { junk i with mailbox := mailbox i }, listens := 0 }

/-- `ClientMgr::start_worker`; `started i` tells whether the thread of worker `i` could be started,
`maxConnect` is `NodeConf::max_connect`. -/
def startWorker (m : ClientMgr) (maxConnect : ℤ) (started : ℕ → Bool) : ClientMgr × ℤ :=
  if m.inited = false then (m, axRetError)
  else
    ({ m with workers := fun i =>
      if i < m.workerNum then
        { activeConn := 0, maxConn := maxConnect / m.workerNum + 100
          status := if started i then .start else .null
          mailbox := (m.workers i).mailbox.init side true }
      else m.workers i }, 0)

/-- A message to the worker `idx`, through its mailbox. -/
def post (os : Libc) (m : ClientMgr) (idx : ℕ) (cmd : ℤ) (msg : ProtoMsg) (res : WriteResult) :
    Except Fault ClientMgr := do
  let (mailbox, _, _) ←
    (m.workers idx).mailbox.write os side ptCgateCtrl (cgateCtrl cmd).proto msg res
  pure { m with workers := Function.update m.workers idx { m.workers idx with mailbox } }

/-- The loop that looks for the worker with the least burden.  Every round compares with
`workers_[1]`. -/
def selectWorker (m : ClientMgr) : ℕ :=
  ((List.range' 1 (m.workerNum - 1)).foldl (fun (load, select) i =>
    if (m.workers 1).activeConn < load then ((m.workers 1).activeConn, i) else (load, select))
    ((m.workers 0).activeConn, 0)).2

/-- The counter for the next connection: `++hid_; hid_ &= ~(HID_THR_MASK << HID_THR_BITS);`. -/
def nextHid (m : ClientMgr) : ℕ :=
  u32 (m.hid + 1) &&& (2 ^ 32 - 1 - hidThrMask <<< hidThrBits)

/-- `(select << HID_THR_BITS) | hid_`, a `uint32_t`. -/
def makeHid (select hid : ℕ) : ℕ := u32 (select <<< hidThrBits ||| hid)

/-- The message about a new connection. -/
def newconn (sockfd : ℤ) (hid ip port : ℕ) : Record pbCgateNewconn :=
  Record.assign pbCgateNewconn fun
    | .fd => sockfd
    | .hid => hid
    | .ip => ip
    | .port => port
    | _ => 0

/-- `ClientMgr::on_accept_new_connect`; also the id given out. -/
def onAcceptNewConnect (os : Libc) (m : ClientMgr) (sockfd : ℤ) (ip port : ℕ)
    (res : WriteResult) : Except Fault (ClientMgr × ℕ) := do
  rtAssert "inited_ != 0" (m.inited = true)
  let m := { m with hid := m.nextHid }
  let select := m.selectWorker
  let hid := makeHid select m.hid
  let m ← m.post os select ptCgateNewconn (newconn sockfd hid ip port).proto res
  pure (m, hid)

/-- `ClientMgr::send_worker_ctrl`. -/
def sendWorkerCtrl (os : Libc) (m : ClientMgr) (cmd idx : ℤ) (msg : ProtoMsg)
    (res : WriteResult) : Except Fault ClientMgr := do
  rtAssert "idx >= 0 && idx < worker_num_" (0 ≤ idx ∧ idx < m.workerNum)
  m.post os idx.toNat cmd msg res

/-- The message that tells a worker to close a connection. -/
def connCtrl (fd hid : ℤ) : Record pbConnCtrl :=
  Record.assign pbConnCtrl fun
    | .fd => fd
    | .hid => hid
    | .action => doClose
    | _ => 0

/-- `ClientMgr::process_conn_notify`. -/
def processConnNotify (os : Libc) (m : ClientMgr) (mem : ℕ → UInt8) (p : ℕ) (remain : ℤ)
    (res : WriteResult) : Except Fault ClientMgr :=
  let (pkt, ret) := unpack pbConnNotify zeroed mem (some p) (ConnectWorker.asUint32 remain)
  if ret < 0 then .ok m
  else if pkt .action = peerClose then
    m.sendWorkerCtrl os ptConnCtrl (thrIdxFromHid (pkt .hid)) (connCtrl (pkt .fd) (pkt .hid)).proto
      res
  else .ok m

/-- `ClientMgr::process_worker_command`. -/
def processWorkerCommand (m : ClientMgr) (mem : ℕ → UInt8) (p : ℕ) (remain : ℤ) :
    Except Fault ClientMgr :=
  let (pkt, ret) := unpack pbWorkerNotify zeroed mem (some p) (ConnectWorker.asUint32 remain)
  if ret < 0 then .ok m
  else if pkt .cmd = workerStartOk then
    if 0 ≤ pkt .lparam ∧ pkt .lparam < m.workerNum then
      let i := (pkt .lparam).toNat
      let m := { m with
        workers := Function.update m.workers i { m.workers i with status := .active } }
      if ∀ j < m.workerNum, (m.workers j).status = .active then
        .ok { m with listens := m.listens + 1 }
      else .ok m
    else .error .badAccess
  else .ok m

/-- What `on_mailbox_read` passes on after it has unpacked the wrapper. -/
def dispatch (mem : ℕ → UInt8) (header : MsgHeader) (p : ℕ) : Option (ℤ × ℕ × ℤ) :=
  let remain : ℤ := header.plLen.toNat
  if header.proto.toNat = ptCgateCtrl then
    let (ctrl, ret) := unpack pbCgateCtrl zeroed mem (some p) (ConnectWorker.asUint32 remain)
    if ret < 0 then none
    else some (ctrl .cmd, p + ret.toNat, remain - ret)
  else none

/-- `ClientMgr::on_mailbox_read`.  A wrapper `PT_CLIENT_REQ` is unpacked and dropped. -/
def onMailboxRead (os : Libc) (m : ClientMgr) (mem : ℕ → UInt8) (header : MsgHeader) (p : ℕ)
    (res : WriteResult) : Except Fault ClientMgr :=
  match dispatch mem header p with
  | none => .ok m
  | some (cmd, p, remain) =>
      if cmd = ptWorkerNotify then m.processWorkerCommand mem p remain
      else if cmd = ptConnNotify then m.processConnNotify os mem p remain res
      else .ok m

end ClientMgr

end Gate

end Axon
