import Axon.Core.Hashmap

/-!
# The poller base class `FdPollerBase`

`fd_poller.cc`: the table of file descriptors of an event loop.  One turn of the loop is
`process()`: it runs the timer and `do_poll`, whose callbacks may call any member function, and then
closes the descriptors retired and registers the ones whose registration was put off meanwhile.

* **`PollerEntry`**, **`FdPollerBase`** : the fields; `pending_new_` is an `HmapT` from descriptors
  to reactors.
* **`FdPollerBase.addFd`**, **`setReactor`**, **`waitClose`**, **`closeFd`** : the member functions.
* **`FdPollerBase.process`** : one turn of the loop, with the calls the callbacks make.

`add_event` and `del_event` are virtual; here they succeed and keep the mask.  A reactor is a
pointer to an object outside, `NULL` is `none`.
-/

namespace Axon

open Library

/-- `EvFlag`. -/
def evNull : ℕ := 0

@[inherit_doc evNull] def evRead : ℕ := 1

@[inherit_doc evNull] def evWrite : ℕ := 2

/-- `FdStatus`. -/
inductive FdStatus where
  | empty
  | active
  /-- The peer has closed; the manager will close the descriptor later. -/
  | waitClose
  | retired
deriving DecidableEq, Repr

/-- `PollerEntry`. -/
structure PollerEntry where
  evMask : ℕ
  status : FdStatus
  reactor : Option ℕ
deriving DecidableEq, Repr

/-- The fields of `FdPollerBase` that its calls on descriptors use. -/
structure FdPollerBase where
  /-- The array `entry_`, of `max_fds_` elements. -/
  entry : ℤ → PollerEntry
  pendingNew : HmapT ℤ ℕ
  /-- The array `retired_`, of `max_fds_` elements. -/
  retired : ℕ → ℤ
  retiredSz : ℕ
  maxFds : ℕ

/-- What the end of a `process()` did: the registrations it made, as cells of `pending_new_`, and
the descriptors it passed to `::close`. -/
structure PollerLog where
  applied : List (ℕ × ℤ × Option ℕ)
  closed : List ℤ
deriving DecidableEq

namespace FdPollerBase

/-- `fd` passes the range test of the member functions. -/
def InRange (p : FdPollerBase) (fd : ℤ) : Prop := 0 ≤ fd ∧ fd < i32 p.maxFds

instance (p : FdPollerBase) (fd : ℤ) : Decidable (p.InRange fd) :=
  inferInstanceAs (Decidable (0 ≤ fd ∧ fd < i32 p.maxFds))

/-- An assignment to `entry_[fd]`. -/
def setEntry (p : FdPollerBase) (fd : ℤ) (f : PollerEntry → PollerEntry) : FdPollerBase :=
  { p with entry := Function.update p.entry fd (f (p.entry fd)) }

/-- `add_event`, when the operating system accepts it. -/
def addEvent (p : FdPollerBase) (fd : ℤ) (flag : ℕ) : FdPollerBase :=
  p.setEntry fd fun e => { e with evMask := e.evMask ||| flag }

/-- `del_event`, when the operating system accepts it; the mask is a `uint8_t`. -/
def delEvent (p : FdPollerBase) (fd : ℤ) (flag : ℕ) : FdPollerBase :=
  p.setEntry fd fun e => { e with evMask := e.evMask &&& (0xff ^^^ flag) }

/-- `FdPollerBase::reset_fd`. -/
def resetFd (p : FdPollerBase) (fd : ℤ) : FdPollerBase :=
  if p.InRange fd then p.setEntry fd fun e => { e with evMask := evNull, status := .empty }
  else p

/-- `FdPollerBase::FdPollerBase`.  `reset_fd` is called for the entries below `(int)maxn` and leaves
their reactors as the memory had them. -/
def new (os : Libc) (junk : ℤ → PollerEntry) (maxn : ℕ) (timetick : ℤ) :
    Except Fault FdPollerBase := do
  rtAssert "timetick_ > 0" (0 < timetick)
  let pendingNew ← HmapT.new os 10
  pure
    { entry := fun fd =>
        if 0 ≤ fd ∧ fd < i32 maxn then { junk fd with evMask := evNull, status := .empty }
        else junk fd
      pendingNew := pendingNew
      retired := fun _ => 0
      retiredSz := 0
      maxFds := maxn }

/-- `FdPollerBase::add_fd`; `a` is the address of the entry `pending_new_` makes, if it makes one.
-/
def addFd (p : FdPollerBase) (a : ℕ) (fd : ℤ) (reactor : Option ℕ) :
    Except Fault (FdPollerBase × ℤ) :=
  if ¬ p.InRange fd then .ok (p, axRetError)
  else if (p.entry fd).status ≠ .empty then do
    let m ← p.pendingNew.insert a fd reactor
    pure ({ p with pendingNew := m }, axRetAgain)
  else
    let p := p.setEntry fd fun _ => { reactor := reactor, evMask := evNull, status := .active }
    .ok (p.addEvent fd evRead, axRetOk)

/-- `FdPollerBase::wait_close`. -/
def waitClose (p : FdPollerBase) (fd : ℤ) : FdPollerBase × ℤ :=
  if ¬ p.InRange fd then (p, axRetError)
  else if (p.entry fd).status ≠ .active then (p, axRetError)
  else
    let p := p.delEvent fd (evRead ||| evWrite)
    (p.setEntry fd fun e => { e with status := .waitClose, reactor := none }, axRetOk)

/-- `FdPollerBase::close_fd`. -/
def closeFd (p : FdPollerBase) (fd : ℤ) : Except Fault (FdPollerBase × ℤ) :=
  if p.retiredSz < p.maxFds then
    .ok ({ p with
      retired := Function.update p.retired p.retiredSz fd
      retiredSz := p.retiredSz + 1 }, 0)
  else .error .badAccess

/-- `FdPollerBase::set_reactor`. -/
def setReactor (p : FdPollerBase) (fd : ℤ) (reactor : Option ℕ) : FdPollerBase × ℤ :=
  if ¬ p.InRange fd then (p, axRetError)
  else if (p.entry fd).status ≠ .active then (p, axRetError)
  else (p.setEntry fd fun e => { e with reactor := reactor }, axRetOk)

/-- What the program calls, also from the callbacks of the timer and of `do_poll`. -/
inductive Call where
  | addFd (a : ℕ) (fd : ℤ) (reactor : Option ℕ)
  | setReactor (fd : ℤ) (reactor : Option ℕ)
  | waitClose (fd : ℤ)
  | closeFd (fd : ℤ)
  /-- `do_poll` meets an event of a descriptor that is not active and drops its events. -/
  | dropEvent (fd : ℤ)

/-- Makes one call. -/
def call (p : FdPollerBase) : Call → Except Fault (FdPollerBase × ℤ)
  | .addFd a fd reactor => p.addFd a fd reactor
  | .setReactor fd reactor => .ok (p.setReactor fd reactor)
  | .waitClose fd => .ok (p.waitClose fd)
  | .closeFd fd => p.closeFd fd
  | .dropEvent fd =>
      .ok (if (p.entry fd).status ≠ .active then p.delEvent fd (evRead ||| evWrite) else p,
        axRetOk)

/-- The loop of `process` over the retired descriptors `retired_[i .. retired_sz_)`, of which `n`
are left; returns the ones passed to `::close`. -/
def closeRetired : ℕ → ℕ → FdPollerBase → Except Fault (FdPollerBase × List ℤ)
  | 0, _, p => .ok (p, [])
  | n + 1, i, p => do
      let fd := p.retired i
      if 0 ≤ fd ∧ fd < p.maxFds then
        let p := p.delEvent fd (evRead ||| evWrite)
        let p := p.resetFd fd
        let closed := if (p.entry fd).status ≠ .empty then [fd] else []
        let (p, rest) ← closeRetired n (i + 1) p
        pure (p, closed ++ rest)
      else .error .badAccess

/-- The body of the second loop of `process`: registers `fd`. -/
def install (p : FdPollerBase) (fd : ℤ) (reactor : Option ℕ) : FdPollerBase :=
  (p.setEntry fd fun _ => { reactor := reactor, status := .active, evMask := evNull }).addEvent
    fd evRead

/-- The loop of `process` along `pending_new_`; returns the registrations made. -/
def applyPending : ℕ → FdPollerBase → Option ℕ →
    Except Fault (FdPollerBase × List (ℕ × ℤ × Option ℕ))
  | _, p, none => .ok (p, [])
  | 0, _, some _ => .error .hang
  | fuel + 1, p, some a => do
      let e ← deref p.pendingNew.entries a
      if 0 ≤ e.key ∧ e.key < p.maxFds then
        let p := p.install e.key e.data
        let (p, rest) ← applyPending fuel p e.linkNext
        pure (p, (a, e.key, e.data) :: rest)
      else .error .badAccess

/-- The part of `FdPollerBase::process` after `do_poll`. -/
def finish (p : FdPollerBase) : Except Fault (FdPollerBase × PollerLog) := do
  let (p, closed) ← closeRetired p.retiredSz 0 p
  let p := { p with retiredSz := 0 }
  let (p, applied) ← applyPending p.pendingNew.entries.bound p p.pendingNew.linkHead
  pure (p, { applied := applied, closed := closed })

/-- `FdPollerBase::process`, where the callbacks of `timer_routine` and `do_poll` make these calls.
-/
def process (p : FdPollerBase) : List Call → Except Fault (FdPollerBase × PollerLog)
  | [] => p.finish
  | c :: cs => do
      let (p, _) ← p.call c
      p.process cs

end FdPollerBase

end Axon
