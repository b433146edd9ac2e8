import Axon.Core.Buffer

/-!
# Connections and their container

`connect.cc`: a `Connect` is the state of one TCP connection, a `ConnectContainer` an array of them
made at the start and never enlarged.  A stack of the free indices hands the elements out, and the
connections in use are threaded on a list for iteration.

* **`Connect.init`** : makes a connection ready for a new socket; its two buffers are made on first
  use and reset afterwards.
* **`Connect.read`** : reads once from the socket into the read buffer.
* **`ConnectContainer.allocConnect`**, **`freeConnect`**, **`getConnect`** : the member functions of
  the container.

A `Connect*` is the index of the element in `connects_`; `NULL` is `none`.
-/

namespace Axon

open Library

/-- `CONN_EMPTY`, as stored in the `uint8_t` `status_`. -/
def connEmpty : ℕ := 0

/-- `CONN_ACTIVE`. -/
def connActive : ℕ := 1

/-- The fields of `Connect`. -/
structure Connect where
  fd : ℤ
  /-- Index in the container. -/
  index : ℤ
  /-- Identifies the connection for its manager. -/
  hid : ℤ
  status : ℕ
  ident : ℕ
  peerIp : ℕ
  peerPort : ℕ
  rbuf : Option BufferT
  wbuf : Option BufferT
  /-- The manager that handles the socket's events. -/
  mgr : Option ℕ
  next : Option ℕ
  prev : Option ℕ

namespace Connect

/-- `Connect::Connect`.  The peer's address is not set; nothing reads it before `init`. -/
def new : Connect :=
  { fd := -1, index := -1, hid := 0, status := connEmpty, ident := 0, peerIp := 0, peerPort := 0
    rbuf := none, wbuf := none, mgr := none, next := none, prev := none }

/-- A buffer of the connection is reset, or made when there is none yet. -/
def readyBuffer (os : Libc) (buf : Option BufferT) (size : ℕ) : Except Fault BufferT :=
  match buf with
  | some b => b.reset os size
  | none => BufferT.new os size

/-- `Connect::init`. -/
def init (os : Libc) (c : Connect) (m : Option ℕ) (fd rsize wsize : ℤ) :
    Except Fault (Connect × ℤ) := do
  rtAssert "m != NULL" (m.isSome)
  rtAssert "fd >= 0 && rsize > 0 && wsize > 0" (0 ≤ fd ∧ 0 < rsize ∧ 0 < wsize)
  let rbuf ← readyBuffer os c.rbuf rsize.toNat
  let wbuf ← readyBuffer os c.wbuf wsize.toNat
  pure ({ c with
    mgr := m, fd := fd, peerPort := 0, peerIp := 0, status := connEmpty
    rbuf := some rbuf, wbuf := some wbuf }, axRetOk)

/-- `Connect::set_status`. -/
def setStatus (c : Connect) (status : ℤ) : Connect :=
  { c with status := (status % 2 ^ 8).toNat }

/-- `Connect::read`, where `::read` ends with `res`: the return value, and whether `errno` is
`EINTR` or `EAGAIN` afterwards.  A connection that is not active returns `-1` with the `errno` some
earlier call left. -/
def read (os : Libc) (c : Connect) (res : ReadResult) (errno : Bool) :
    Except Fault (Connect × ℤ × Bool) :=
  match c.rbuf with
  | none => .error (.rtAssert "rbuf_ != NULL")
  | some rbuf =>
      if c.status ≠ connActive then .ok (c, -1, errno)
      else do
        let (rbuf, _) ← rbuf.prepare os 2048
        match res with
        | .again => pure ({ c with rbuf := some rbuf }, -1, true)
        | .fail => pure ({ c with rbuf := some rbuf }, -1, false)
        | .data [] => pure ({ c with rbuf := some rbuf }, 0, errno)
        | .data bytes => do
            let rbuf ← (rbuf.writeTail bytes).flushPush bytes.length
            pure ({ c with rbuf := some rbuf }, bytes.length, errno)

end Connect

/-- The fields of `ConnectContainer`. -/
structure ConnectContainer where
  rsize : ℕ
  wsize : ℕ
  count : ℤ
  capacity : ℤ
  connects : ℕ → Connect
  /-- Number of elements of `connects_` and of `free_stack_`. -/
  slots : ℕ
  head : Option ℕ
  freeStack : ℕ → ℤ
  stackTop : ℤ
  mgr : Option ℕ

namespace ConnectContainer

/-- `ConnectContainer::ConnectContainer`.  `junk` is what the memory of `free_stack_` holds; the
elements below `(int)n` are set. -/
def new (junk : ℕ → ℤ) (n : ℕ) (mgr : Option ℕ) (rbufSize wbufSize : ℕ) : ConnectContainer :=
  { rsize := rbufSize
    wsize := wbufSize
    count := 0
    capacity := i32 n
    connects := fun i => if (i : ℤ) < i32 n then { Connect.new with index := i } else Connect.new
    slots := n
    head := none
    freeStack := fun i => if (i : ℤ) < i32 n then i else junk i
    stackTop := 0
    mgr := mgr }

/-- Reads `free_stack_[i]`. -/
def freeStackAt (t : ConnectContainer) (i : ℤ) : Except Fault ℤ :=
  if 0 ≤ i ∧ i < t.slots then .ok (t.freeStack i.toNat) else .error .badAccess

/-- Assigns to fields of a connection through a pointer that may be `NULL`. -/
def setIf (connects : ℕ → Connect) (p : Option ℕ) (f : Connect → Connect) : ℕ → Connect :=
  match p with
  | some i => Function.update connects i (f (connects i))
  | none => connects

/-- `ConnectContainer::alloc_connect`. -/
def allocConnect (os : Libc) (t : ConnectContainer) (sockfd : ℤ) :
    Except Fault (ConnectContainer × ℤ) :=
  if t.capacity ≤ t.count then .ok (t, axRetFull)
  else do
    rtAssert "mgr_ != NULL" (t.mgr.isSome)
    let vfd ← t.freeStackAt t.stackTop
    rtAssert "vfd >= 0 && vfd < capacity_" (0 ≤ vfd ∧ vfd < t.capacity)
    let i := vfd.toNat
    let c := t.connects i
    if c.status ≠ connEmpty then .ok (t, axRetError)
    else do
      let (c, _) ← c.init os t.mgr sockfd (i32 t.rsize) (i32 t.wsize)
      let connects := Function.update t.connects i { c with next := t.head, prev := none }
      let connects := setIf connects t.head fun h => { h with prev := some i }
      pure ({ t with
        connects := connects, head := some i
        stackTop := t.stackTop + 1, count := t.count + 1 }, vfd)

/-- `ConnectContainer::free_connect`.  `head_` stays what it is, also when the connection freed is
the first one of the list. -/
def freeConnect (t : ConnectContainer) (vfd : ℤ) : Except Fault ConnectContainer := do
  rtAssert "stack_top_ > 0 && count_ > 0" (0 < t.stackTop ∧ 0 < t.count)
  rtAssert "vfd >= 0 && vfd < capacity_" (0 ≤ vfd ∧ vfd < t.capacity)
  let i := vfd.toNat
  let connects := Function.update t.connects i { t.connects i with status := connEmpty }
  let connects := setIf connects (t.connects i).prev fun p =>
    { p with next := (t.connects i).next }
  let connects := setIf connects (connects i).next fun q => { q with prev := (connects i).prev }
  let stackTop := t.stackTop - 1
  if stackTop < t.slots then
    pure { t with
      connects := connects, count := t.count - 1, stackTop := stackTop
      freeStack := Function.update t.freeStack stackTop.toNat vfd }
  else .error .badAccess

/-- `ConnectContainer::get_connect`. -/
def getConnect (t : ConnectContainer) (vfd : ℤ) : Option Connect :=
  if t.capacity ≤ vfd ∨ vfd < 0 then none else some (t.connects vfd.toNat)

/-- `get_connect(vfd)->set_status(status)`. -/
def setStatus (t : ConnectContainer) (vfd : ℕ) (status : ℤ) : ConnectContainer :=
  { t with connects := Function.update t.connects vfd ((t.connects vfd).setStatus status) }

end ConnectContainer

end Axon
