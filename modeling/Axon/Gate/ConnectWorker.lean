import Axon.Core.Connect
import Axon.Core.FdPoller
import Axon.Core.Tpipe
import Axon.Proto.GateMsg

/-!
# The worker of the gate

`connect_worker.cc`: a worker thread owns a poller, a container of client connections, and one side
of a mailbox to the main thread.  The main thread sends it the sockets it accepts; the worker reads
them, echoes what they send, and tells the main thread when a peer is gone.

* **`ConnectWorker.newConnect`**, **`getConnect`**, **`closeConnect`**, **`waitClose`** : the
  connections.
* **`ConnectWorker.onRead`** : a client socket is readable.
* **`ConnectWorker.dispatch`**, **`onMailboxRead`** : a message from the main thread.
* **`ConnectWorker.step`** : one event of the worker's loop.

The reactor of the connection in slot `i` is the object `connReactor i`, the mailbox is the object
`mailboxReactor`.
-/

namespace Axon

open Library

namespace Gate

open Codegen

/-- The mailbox as a reactor. -/
def mailboxReactor : ℕ := 0

/-- The connection in a slot as a reactor. -/
def connReactor (i : ℕ) : ℕ := i + 1

/-- `this` of the worker, the manager of its connections. -/
def workerSelf : Option ℕ := some 0

/-- The fields of `ConnectWorker`. -/
structure ConnectWorker where
  poller : FdPollerBase
  container : ConnectContainer
  rbufSize : ℕ
  wbufSize : ℕ
  mailbox : TpipeT
  idx : ℤ
  /-- The descriptors passed to `::close` so far. -/
  closed : List ℤ
  /-- The calls of `::write` on client sockets so far: the descriptor, and what was given. -/
  echoed : List (ℤ × List UInt8)

namespace ConnectWorker

/-- The mailbox is used by the worker from side 1. -/
def side : Fin 2 := ⟨1, Nat.one_lt_two⟩

/-- `ConnectWorker::ConnectWorker` and the first part of `thread_worker_fn`: the mailbox is
registered with the new poller.  `timetick` is `NodeConf::timetick`, `junk` and `junkStack` are what
the memory of the arrays held. -/
def start (os : Libc) (a : ℕ) (junk : ℤ → PollerEntry) (junkStack : ℕ → ℤ) (timetick : ℤ)
    (maxConnect rsize wsize : ℕ) (mailbox : TpipeT) (idx : ℤ) : Except Fault ConnectWorker := do
  let poller ← FdPollerBase.new os junk maxConnect timetick
  let container := ConnectContainer.new junkStack maxConnect workerSelf rsize wsize
  let mailbox := mailbox.init side true
  let (poller, _) ← poller.addFd a (mailbox.pinfo side).fd (some mailboxReactor)
  pure
    { poller := poller, container := container, rbufSize := rsize, wbufSize := wsize
      mailbox := mailbox, idx := idx, closed := [], echoed := [] }

/-- Assigns to the connection in a slot. -/
def setConn (w : ConnectWorker) (i : ℕ) (c : Connect) : ConnectWorker :=
  { w with container :=
    { w.container with connects := Function.update w.container.connects i c } }

/-- `ConnectWorker::get_connect`. -/
def getConnect (w : ConnectWorker) (vfd hid : ℤ) : Option Connect :=
  match w.container.getConnect vfd with
  | none => none
  | some c => if c.hid ≠ hid then none else some c

/-- `ConnectWorker::send_worker_command`. -/
def sendWorkerCommand (os : Libc) (w : ConnectWorker) (cmd : ℤ) (msg : ProtoMsg)
    (res : WriteResult) : Except Fault ConnectWorker := do
  let (mailbox, _, _) ← w.mailbox.write os side ptCgateCtrl (cgateCtrl cmd).proto msg res
  pure { w with mailbox }

/-- The message `start_loop` sends when the worker is up. -/
def startNotify (idx : ℤ) : Record pbWorkerNotify :=
  Record.assign pbWorkerNotify fun
    | .cmd => workerStartOk
    | .lparam => idx
    | _ => 0

/-- `ConnectWorker::start_loop`, up to the loop. -/
def startLoop (os : Libc) (w : ConnectWorker) (res : WriteResult) : Except Fault ConnectWorker :=
  w.sendWorkerCommand os ptWorkerNotify (startNotify w.idx).proto res

/-- The message `wait_close` sends about a connection. -/
def connNotify (fd hid : ℤ) : Record pbConnNotify :=
  Record.assign pbConnNotify fun
    | .fd => fd
    | .hid => hid
    | .action => peerClose
    | _ => 0

/-- `ConnectWorker::wait_close`. -/
def waitClose (os : Libc) (w : ConnectWorker) (c : Connect) (res : WriteResult) :
    Except Fault ConnectWorker :=
  let w := { w with poller := (w.poller.waitClose c.fd).1 }
  w.sendWorkerCommand os ptConnNotify (connNotify c.fd c.hid).proto res

/-- `ConnectWorker::close_connect`. -/
def closeConnect (w : ConnectWorker) (vfd hid : ℤ) : Except Fault ConnectWorker :=
  match w.container.getConnect vfd with
  | none => .ok w
  | some c =>
      if c.hid ≠ hid then .ok w
      else do
        let (poller, _) ← w.poller.closeFd c.fd
        let container ← w.container.freeConnect vfd
        pure { w with poller, container }

/-- `ConnectWorker::new_connect`; `a` is the address of the entry `pending_new_` makes, if it makes
one.  The slot that holds the new connection, or `NULL`. -/
def newConnect (os : Libc) (a : ℕ) (w : ConnectWorker) (fd hid peerIp peerPort : ℤ) :
    Except Fault (ConnectWorker × Option ℕ) := do
  let (container, vfd) ← w.container.allocConnect os fd
  let w := { w with container }
  if vfd < 0 then pure (w, none)
  else
    match w.container.getConnect vfd with
    | none => .error (.rtAssert "conn != NULL")
    | some c => do
        let (c, ret) ← c.init os workerSelf fd (i32 w.rbufSize) (i32 w.wbufSize)
        if ret < 0 then pure (w.setConn vfd.toNat c, none)
        else do
          let c := { c with
            index := vfd, hid := hid, peerPort := peerPort.toNat, peerIp := peerIp.toNat }
          let w := w.setConn vfd.toNat (c.setStatus connActive)
          let (poller, _) ← w.poller.addFd a fd (some (connReactor vfd.toNat))
          pure ({ w with poller }, some vfd.toNat)

/-- `ConnectWorker::process_data`: everything read is given to `::write`, and whatever that returns,
everything is dropped. -/
def processData (os : Libc) (w : ConnectWorker) (i : ℕ) : Except Fault ConnectWorker :=
  let c := w.container.connects i
  match c.rbuf with
  | none => .error .badAccess
  | some rbuf => do
      let w := if 0 < rbuf.len then { w with echoed := w.echoed ++ [(c.fd, rbuf.bytes)] } else w
      let (rbuf, _) ← rbuf.pop os rbuf.len
      pure (w.setConn i { c with rbuf := some rbuf })

/-- `ConnectWorker::on_read` for the connection in slot `i`, where `::read` ends with `res`, `errno`
tells whether an earlier call left `EINTR` or `EAGAIN`, and `wres` is what becomes of the attempt to
flush the mailbox. -/
def onRead (os : Libc) (w : ConnectWorker) (i : ℕ) (res : ReadResult) (errno : Bool)
    (wres : WriteResult) : Except Fault ConnectWorker := do
  let (c, ret, errno) ← (w.container.connects i).read os res errno
  let w := w.setConn i c
  if ret < 0 ∧ errno = true then pure w
  else if ret = 0 then pure w
  else if ret < 0 then do
    let w ← w.waitClose os c wres
    w.closeConnect c.index c.hid
  else w.processData os i

/-- An `int` passed as a `uint32_t`. -/
def asUint32 (n : ℤ) : ℕ := (n % 2 ^ 32).toNat

/-- What `on_mailbox_read` passes on after it has unpacked the wrapper: the command, the address of
the inner message and the number of bytes said to be there.  Only the branch of `PT_CGATE_NEWCONN`
uses the address as advanced once. -/
def dispatch (mem : ℕ → UInt8) (header : MsgHeader) (p : ℕ) : Option (ℤ × ℕ × ℤ) :=
  let remain : ℤ := header.plLen.toNat
  if header.proto.toNat = ptCgateCtrl then
    let (ctrl, ret) := unpack pbCgateCtrl zeroed mem (some p) (asUint32 remain)
    if ret < 0 then none
    else
      let p := p + ret.toNat
      let remain := remain - ret
      if ctrl .cmd = ptCgateNewconn then some (ptCgateNewconn, p, remain)
      else some (ctrl .cmd, p + ret.toNat, remain)
  else none

/-- `ConnectWorker::process_conn_ctrl`: the members of the message and the return value of `unpack`;
nothing is done with them. -/
def processConnCtrl (mem : ℕ → UInt8) (p : ℕ) (remain : ℤ) : (GateField → ℤ) × ℤ :=
  unpack pbConnCtrl zeroed mem (some p) (asUint32 remain)

/-- The arguments of the call of `new_connect` in `on_mailbox_read`, if it is made. -/
def newconnArgs (mem : ℕ → UInt8) (header : MsgHeader) (p : ℕ) : Option (ℤ × ℤ × ℤ × ℤ) :=
  match dispatch mem header p with
  | none => none
  | some (cmd, p, remain) =>
      if cmd = ptCgateNewconn then
        let (pkt, ret) := unpack pbCgateNewconn zeroed mem (some p) (asUint32 remain)
        if ret < 0 then none
        else some (pkt .fd, FieldType.int32.convert (pkt .hid), pkt .ip, pkt .port)
      else none

/-- `ConnectWorker::on_mailbox_read`: the slot given to a new connection, if the message brought
one.  The commands other than `PT_CGATE_NEWCONN` change nothing. -/
def onMailboxRead (os : Libc) (a : ℕ) (w : ConnectWorker) (mem : ℕ → UInt8) (header : MsgHeader)
    (p : ℕ) : Except Fault (ConnectWorker × Option ℕ) :=
  match newconnArgs mem header p with
  | none => .ok (w, none)
  | some (fd, hid, ip, port) => w.newConnect os a fd hid ip port

/-! ## The loop -/

/-- What happens to a worker. -/
inductive Event where
  /-- The mailbox calls back with the message at `p`. -/
  | message (os : Libc) (a : ℕ) (mem : ℕ → UInt8) (header : MsgHeader) (p : ℕ)
  /-- `do_poll` finds the descriptor readable; what the call of `on_read` meets. -/
  | readable (os : Libc) (fd : ℤ) (res : ReadResult) (errno : Bool) (wres : WriteResult)
  /-- `do_poll` is done: the rest of `process()`. -/
  | endTurn

/-- The part of `do_poll` about a readable descriptor.  When it is the mailbox that is readable,
what follows are the events `message`. -/
def poll (os : Libc) (w : ConnectWorker) (fd : ℤ) (res : ReadResult) (errno : Bool)
    (wres : WriteResult) : Except Fault ConnectWorker :=
  if (w.poller.entry fd).status ≠ .active then
    .ok { w with poller := w.poller.delEvent fd (evRead ||| evWrite) }
  else
    match (w.poller.entry fd).reactor with
    | none => .error .badAccess
    | some 0 => .ok w
    | some (i + 1) =>
        -- `Connect::on_ev_read`
        if (w.container.connects i).mgr = none then .ok w else w.onRead os i res errno wres

/-- One event. -/
def step (w : ConnectWorker) : Event → Except Fault ConnectWorker
  | .message os a mem header p => do
      let (w, _) ← w.onMailboxRead os a mem header p
      pure w
  | .readable os fd res errno wres => w.poll os fd res errno wres
  | .endTurn => do
      let (poller, log) ← w.poller.finish
      pure { w with poller, closed := w.closed ++ log.closed }

end ConnectWorker

end Gate

end Axon
