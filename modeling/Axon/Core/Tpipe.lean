import Axon.Core.ProtoMsg
import Mathlib.Logic.Function.Basic

/-!
# The pipe between two threads, `tpipe_t`

`ax_tpipe.cc`: two threads exchange messages over the two ends of a socket pair.  Each end, a
*side*, has a write buffer and a read buffer.  `write` packs a frame into the write buffer of its
side and tries to hand the buffer to the socket; `on_ev_write` tries again; `on_ev_read` reads from
the socket into the read buffer and calls back for every complete frame in it.

The socket is the environment's: every operation that makes a socket call takes the outcome of the
call as an argument.
-/

namespace Axon

open Library

/-- A call on `poller_`. -/
inductive PollerCall where
  | addFd (fd : ℤ)
  | waitClose (fd : ℤ)
  /-- `del_event(fd, EV_WRITE)`. -/
  | delEvWrite (fd : ℤ)
deriving DecidableEq, Repr

/-- `tpipe_fd_info_t`: one side of the pipe. -/
structure PipeInfo where
  fd : ℤ
  wbuf : BufferT
  rbuf : BufferT
  /-- Whether `cb_read_` is set. -/
  cbRead : Bool
  /-- Whether `poller_` is set. -/
  poller : Bool
  /-- The calls of `cb_read_` made so far. -/
  callbacks : List Frame
  /-- The calls on `poller_` made so far. -/
  pollerCalls : List PollerCall

/-- `tpipe_t`. -/
structure TpipeT where
  pinfo : Fin 2 → PipeInfo

/-- The other side of a pipe. -/
def peer (side : Fin 2) : Fin 2 := 1 - side

lemma peer_peer (side : Fin 2) : peer (peer side) = side := by
  revert side
  decide

namespace TpipeT

/-- `init_buf_size`. -/
def initBufSize : ℕ := 32000

/-- Change one side. -/
def modify (t : TpipeT) (side : Fin 2) (f : PipeInfo → PipeInfo) : TpipeT :=
  { t with pinfo := Function.update t.pinfo side (f (t.pinfo side)) }

@[simp] lemma modify_pinfo_self (t : TpipeT) (side : Fin 2) (f : PipeInfo → PipeInfo) :
    (t.modify side f).pinfo side = f (t.pinfo side) := by
  simp [modify]

@[simp] lemma modify_pinfo_of_ne (t : TpipeT) {side s : Fin 2} (f : PipeInfo → PipeInfo)
    (h : s ≠ side) : (t.modify side f).pinfo s = t.pinfo s := by
  simp [modify, h]

/-- `tpipe_t::tpipe_t()`, with the descriptors `socketpair` returned. -/
def new (os : Libc) (sv : Fin 2 → ℤ) : Except Fault TpipeT := do
  let wbuf ← BufferT.new os initBufSize
  let rbuf ← BufferT.new os initBufSize
  pure
    { pinfo := fun i =>
        { fd := sv i, wbuf, rbuf, cbRead := false, poller := false,
          callbacks := [], pollerCalls := [] } }

/-- `tpipe_t::init` with a poller. -/
def init (t : TpipeT) (side : Fin 2) (cbRead : Bool) : TpipeT :=
  t.modify side fun p =>
    { p with poller := true, cbRead, pollerCalls := p.pollerCalls ++ [.addFd p.fd] }

/-- `init` of both sides, with a read callback each. -/
def initBoth (t : TpipeT) : TpipeT := (t.init 0 true).init 1 true

/-- The side a descriptor belongs to. -/
def sideOf (t : TpipeT) (fd : ℤ) : Option (Fin 2) :=
  if fd = (t.pinfo 0).fd then some 0
  else if fd = (t.pinfo 1).fd then some 1
  else none

/-- The framing loop of `tpipe_t::on_ev_read`: the callbacks made and the buffer left.  `remain`
falls by a header in every round, so `fuel = remain` rounds are enough. -/
def frameLoop (os : Libc) : ℕ → BufferT → ℕ → Except Fault (List Frame × BufferT)
  | 0, buf, _ => .ok ([], buf)
  | fuel + 1, buf, remain =>
      if remain ≤ msgHeaderLen then .ok ([], buf)
      else
        match buf.data with
        | none => .error .badAccess
        | some p =>
            let header := unpackHeader p
            if remain - msgHeaderLen < header.plLen.toNat then .ok ([], buf)
            else do
              let (buf, _) ← buf.pop os msgHeaderLen
              match buf.data with
              | none => .error .badAccess
              | some p => do
                  let payload := window p 0 header.plLen.toNat
                  let (buf, _) ← buf.pop os header.plLen.toNat
                  let (more, buf) ←
                    frameLoop os fuel buf (remain - msgHeaderLen - header.plLen.toNat)
                  pure ((header, payload) :: more, buf)

/-- `tpipe_t::on_ev_read(fd)`, where `::read` ends with `res`. -/
def onEvRead (os : Libc) (t : TpipeT) (fd : ℤ) (res : ReadResult) : Except Fault TpipeT :=
  match t.sideOf fd with
  | none => .ok t
  | some side => do
      let (buf, _) ← (t.pinfo side).rbuf.prepare os maxProtoLen
      match res with
      | .again => pure (t.modify side fun p => { p with rbuf := buf })
      | .fail =>
          pure (t.modify side fun p =>
            { p with rbuf := buf, pollerCalls := p.pollerCalls ++ [.waitClose p.fd] })
      | .data bytes => do
          let buf ← (buf.writeTail bytes).flushPush bytes.length
          if (t.pinfo side).cbRead then do
            let (frames, buf) ← frameLoop os buf.len buf buf.len
            pure (t.modify side fun p =>
              { p with rbuf := buf, callbacks := p.callbacks ++ frames })
          else do
            let (buf, _) ← buf.pop os bytes.length
            pure (t.modify side fun p => { p with rbuf := buf })

/-- `tpipe_t::try_write(side)`, where `::write` ends with `res`; also the bytes the socket took.
They stay in the write buffer. -/
def tryWrite (t : TpipeT) (side : Fin 2) (res : WriteResult) : TpipeT × List UInt8 :=
  match res with
  | .again => (t, [])
  | .fail =>
      (t.modify side fun p => { p with pollerCalls := p.pollerCalls ++ [.waitClose p.fd] }, [])
  | .accept n =>
      (if (t.pinfo side).wbuf.len < 1 then
        t.modify side fun p => { p with pollerCalls := p.pollerCalls ++ [.delEvWrite p.fd] }
      else t, (t.pinfo side).wbuf.bytes.take n)

/-- `tpipe_t::on_ev_write(fd)`. -/
def onEvWrite (t : TpipeT) (fd : ℤ) (res : WriteResult) : TpipeT × List UInt8 :=
  match t.sideOf fd with
  | none => (t, [])
  | some side => t.tryWrite side res

/-- A store of `bytes` at `tail() + off`. -/
def storeAt (b : BufferT) (off : ℕ) (bytes : List UInt8) : BufferT :=
  { b with buf := b.buf.map fun m => blit m (b.end_ + off) bytes }

/-- `tpipe_t::write(side, wrapper_type, wrapper, pkt)`: the return value and the bytes the socket
took in the attempt to flush.  A message that fails to pack leaves its bytes behind the window. -/
def write (os : Libc) (t : TpipeT) (side : Fin 2) (wrapperType : ℕ) (wrapper pkt : ProtoMsg)
    (res : WriteResult) : Except Fault (TpipeT × ℤ × List UInt8) :=
  if (t.pinfo side).poller = false then .ok (t, -1, [])
  else do
    let plLen := pkt.calSize
    let wrapperLen := wrapper.calSize
    let header : MsgHeader :=
      { proto := UInt16.ofNat wrapperType, plLen := UInt16.ofNat (wrapperLen + plLen) }
    let totalLen := plLen + wrapperLen + msgHeaderLen
    let (buf, _) ← (t.pinfo side).wbuf.prepare os totalLen
    let buf := storeAt buf 0 (packHeader header)
    match wrapper.pack wrapperLen with
    | none => pure (t.modify side fun p => { p with wbuf := buf }, -1, [])
    | some ws =>
        let buf := storeAt buf msgHeaderLen ws
        match pkt.pack plLen with
        | none => pure (t.modify side fun p => { p with wbuf := buf }, -1, [])
        | some ps => do
            let buf := storeAt buf (msgHeaderLen + wrapperLen) ps
            let buf ← buf.flushPush totalLen
            let (t, sent) := (t.modify side fun p => { p with wbuf := buf }).tryWrite side res
            pure (t, 0, sent)

end TpipeT

end Axon
