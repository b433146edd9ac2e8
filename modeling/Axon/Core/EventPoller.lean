import Axon.Core.FdPollerRetired

/-!
# The pollers `EpollPoller` and `KqueuePoller`

`epoll.cc`, `kqueue.cc`: the virtual functions `add_event`, `del_event` and `do_poll` of
`FdPollerBase`, for the two operating systems.  The kernel keeps a registration for each descriptor:
`epoll` one for all events of it, `kqueue` one for each filter.

* **`Interest`** : a set of events, reading and writing.
* **`EventPoller`** : a poller and what the kernel has registered.  The kernel of `epoll` keeps an
  `Option Interest` per descriptor, that of `kqueue` an `Interest`.
* **`Driver`** : the virtual functions, with instances `EpollPoller` and `KqueuePoller`.
* **`EventPoller.addFd`**, **`waitClose`**, **`setReactor`**, **`closeFd`**, **`finish`** : the base
  class over them.
* **`Reaction`** : what the callbacks of the reactors do, any function of what has happened so far.
* **`EpollPoller.doPoll`**, **`KqueuePoller.doPoll`** : the dispatching of a batch of events.

The descriptors are open, so that the kernel refuses a request only for what it has registered.
-/

namespace Axon

open Library

/-- A set of events: `EPOLLIN`, `EPOLLOUT` for `epoll`, `EVFILT_READ`, `EVFILT_WRITE` for `kqueue`.
-/
structure Interest where
  read : Bool
  write : Bool
deriving DecidableEq, Repr

namespace Interest

/-- No event. -/
def nothing : Interest := ⟨false, false⟩

/-- The events a parameter `flag` asks for. -/
def ofFlag (flag : ℕ) : Interest := ⟨decide (flag &&& evRead ≠ 0), decide (flag &&& evWrite ≠ 0)⟩

/-- The flags of the events. -/
def mask (i : Interest) : ℕ :=
  (if i.read then evRead else evNull) ||| if i.write then evWrite else evNull

/-- The events of both. -/
def union (i j : Interest) : Interest := ⟨i.read || j.read, i.write || j.write⟩

/-- The events of the first without the events of the second. -/
def diff (i j : Interest) : Interest := ⟨i.read && !j.read, i.write && !j.write⟩

end Interest

/-- A poller whose kernel keeps a registration `R` for each descriptor. -/
structure EventPoller (R : Type) where
  base : FdPollerBase
  /-- What is registered at `epoll_fd_`, or at `kqueue_fd_`. -/
  kernel : ℤ → R

/-- What `add_event` and `del_event` work on: `pe->ev_mask`, and the registration. -/
structure Watch (R : Type) where
  evMask : ℕ
  reg : R
deriving DecidableEq

namespace EventPoller

variable {R : Type}

/-- What the poller has for a descriptor. -/
def watch (p : EventPoller R) (fd : ℤ) : Watch R := ⟨(p.base.entry fd).evMask, p.kernel fd⟩

/-- The poller with something else for a descriptor. -/
def setWatch (p : EventPoller R) (fd : ℤ) (w : Watch R) : EventPoller R where
  base := p.base.setEntry fd fun e => { e with evMask := w.evMask }
  kernel := Function.update p.kernel fd w.reg

/-- What is done through `pe = &entry_[fd]`, and returned. -/
def onEntry (p : EventPoller R) (fd : ℤ) (f : Watch R → Watch R × ℤ) :
    Except Fault (EventPoller R × ℤ) :=
  if 0 ≤ fd ∧ fd < p.base.maxFds then .ok (p.setWatch fd (f (p.watch fd)).1, (f (p.watch fd)).2)
  else .error .badAccess

lemma setWatch_watch (p : EventPoller R) (fd : ℤ) : p.setWatch fd (p.watch fd) = p := by
  simp [setWatch, watch, FdPollerBase.setEntry]

/-- A function that gives up or works on one entry changes what the poller has for it at most. -/
lemma touches {p p' : EventPoller R} {fd r : ℤ} {f : Watch R → Watch R × ℤ} {c : Prop} [Decidable c]
    (h : (if c then .ok (p, axRetError) else p.onEntry fd f) = .ok (p', r)) :
    ∃ w, p' = p.setWatch fd w := by
  rw [onEntry] at h
  split_ifs at h
  · obtain ⟨rfl, -⟩ := Prod.mk.inj (Except.ok.inj h)
    exact ⟨_, (setWatch_watch p fd).symm⟩
  · obtain ⟨rfl, -⟩ := Prod.mk.inj (Except.ok.inj h)
    exact ⟨_, rfl⟩

end EventPoller

/-- The virtual functions, for a kernel that keeps registrations `R`.  For a descriptor in range
they work on what the poller has for it, and on nothing else. -/
class Driver (R : Type) where
  /-- The registration of a descriptor nothing was asked for. -/
  idle : R
  /-- The events the kernel watches. -/
  watched : R → Interest
  addEvent : EventPoller R → ℤ → ℕ → Except Fault (EventPoller R × ℤ)
  delEvent : EventPoller R → ℤ → ℕ → Except Fault (EventPoller R × ℤ)
  /-- The body of `add_event`. -/
  add : ℕ → Watch R → Watch R × ℤ
  /-- The body of `del_event`. -/
  del : ℕ → Watch R → Watch R × ℤ
  addEvent_eq : ∀ {p : EventPoller R} {fd : ℤ} (flag : ℕ), p.base.InRange fd →
    addEvent p fd flag = p.onEntry fd (add flag)
  delEvent_eq : ∀ {p : EventPoller R} {fd : ℤ} (flag : ℕ), p.base.InRange fd →
    delEvent p fd flag = p.onEntry fd (del flag)
  addEvent_touches : ∀ {p p' : EventPoller R} {fd : ℤ} {flag : ℕ} {r : ℤ},
    addEvent p fd flag = .ok (p', r) → ∃ w, p' = p.setWatch fd w
  delEvent_touches : ∀ {p p' : EventPoller R} {fd : ℤ} {flag : ℕ} {r : ℤ},
    delEvent p fd flag = .ok (p', r) → ∃ w, p' = p.setWatch fd w

/-! ## `epoll` -/

namespace EpollPoller

/-- What `epoll_ctl` keeps for a descriptor: nothing, or the events it was added with. -/
abbrev Reg := Option Interest

/-- `epoll_ctl(epoll_fd_, EPOLL_CTL_ADD, fd, &ev)`; `none` is the result -1. -/
def ctlAdd (ev : Interest) : Reg → Option Reg
  | none => some (some ev)
  | some _ => none

/-- `epoll_ctl(epoll_fd_, EPOLL_CTL_DEL, fd, &ev)`; `none` is the result -1. -/
def ctlDel : Reg → Option Reg
  | some _ => some none
  | none => none

/-- The body of `add_event` for one event: `if (flag & ev)`.  The result is false where the function
returns `AX_RET_ERROR`. -/
def addOne (flag ev : ℕ) (w : Watch Reg) : Watch Reg × Bool :=
  if flag &&& ev = 0 then (w, true)
  else
    match ctlAdd (.ofFlag ev) w.reg with
    | some reg => (⟨w.evMask ||| ev, reg⟩, true)
    | none => (w, false)

/-- The body of `del_event` for one event.  The mask is a `uint8_t`. -/
def delOne (flag ev : ℕ) (w : Watch Reg) : Watch Reg × Bool :=
  if flag &&& ev = 0 then (w, true)
  else
    match ctlDel w.reg with
    | some reg => (⟨w.evMask &&& (0xff ^^^ ev), reg⟩, true)
    | none => (w, false)

/-- The two halves of `add_event`, or of `del_event`, one after the other. -/
def both (one : ℕ → Watch Reg → Watch Reg × Bool) (w : Watch Reg) : Watch Reg × ℤ :=
  if (one evRead w).2 then
    ((one evWrite (one evRead w).1).1,
      if (one evWrite (one evRead w).1).2 then axRetOk else axRetError)
  else ((one evRead w).1, axRetError)

/-- `EpollPoller::add_event`. -/
def addEvent (p : EventPoller Reg) (fd : ℤ) (flag : ℕ) : Except Fault (EventPoller Reg × ℤ) :=
  if fd < 0 ∨ i32 p.base.maxFds < fd then .ok (p, axRetError)
  else p.onEntry fd (both (addOne flag))

/-- `EpollPoller::del_event`. -/
def delEvent (p : EventPoller Reg) (fd : ℤ) (flag : ℕ) : Except Fault (EventPoller Reg × ℤ) :=
  if fd < 0 ∨ p.base.maxFds ≤ fd then .ok (p, axRetError)
  else p.onEntry fd (both (delOne flag))

instance : Driver Reg where
  idle := none
  watched reg := reg.getD .nothing
  addEvent := addEvent
  delEvent := delEvent
  add flag := both (addOne flag)
  del flag := both (delOne flag)
  addEvent_eq _ h := if_neg (not_or.mpr ⟨h.1.not_gt, h.2.not_gt⟩)
  delEvent_eq _ h := if_neg (not_or.mpr ⟨h.1.not_gt, h.lt_maxFds.2.not_ge⟩)
  addEvent_touches := EventPoller.touches
  delEvent_touches := EventPoller.touches

end EpollPoller

/-! ## `kqueue` -/

namespace KqueuePoller

/-- What `kevent` keeps for a descriptor: its filters. -/
abbrev Reg := Interest

/-- The body of `add_event`; `EV_ADD` for each of the filters. -/
def add (flag : ℕ) (w : Watch Reg) : Watch Reg × ℤ :=
  let w := if flag &&& evRead = 0 then w else ⟨w.evMask ||| evRead, { w.reg with read := true }⟩
  let w := if flag &&& evWrite = 0 then w else ⟨w.evMask ||| evWrite, { w.reg with write := true }⟩
  (w, axRetOk)

/-- The body of `del_event`; `EV_DELETE` of a filter that is not there changes nothing, and its
result is not looked at. -/
def del (flag : ℕ) (w : Watch Reg) : Watch Reg × ℤ :=
  let w := if flag &&& evRead = 0 then w
    else ⟨w.evMask &&& (0xff ^^^ evRead), { w.reg with read := false }⟩
  let w := if flag &&& evWrite = 0 then w
    else ⟨w.evMask &&& (0xff ^^^ evWrite), { w.reg with write := false }⟩
  (w, axRetOk)

/-- `KqueuePoller::add_event`. -/
def addEvent (p : EventPoller Reg) (fd : ℤ) (flag : ℕ) : Except Fault (EventPoller Reg × ℤ) :=
  if fd < 0 ∨ i32 p.base.maxFds < fd then .ok (p, axRetError)
  else p.onEntry fd (add flag)

/-- `KqueuePoller::del_event`. -/
def delEvent (p : EventPoller Reg) (fd : ℤ) (flag : ℕ) : Except Fault (EventPoller Reg × ℤ) :=
  if fd < 0 ∨ i32 p.base.maxFds < fd then .ok (p, axRetError)
  else p.onEntry fd (del flag)

instance : Driver Reg where
  idle := .nothing
  watched reg := reg
  addEvent := addEvent
  delEvent := delEvent
  add := add
  del := del
  addEvent_eq _ h := if_neg (not_or.mpr ⟨h.1.not_gt, h.2.not_gt⟩)
  delEvent_eq _ h := if_neg (not_or.mpr ⟨h.1.not_gt, h.2.not_gt⟩)
  addEvent_touches := EventPoller.touches
  delEvent_touches := EventPoller.touches

end KqueuePoller

/-! ## The base class -/

namespace EventPoller

variable {R : Type} [Driver R]

/-- The constructors: nothing is registered. -/
def new (os : Libc) (junk : ℤ → PollerEntry) (maxn : ℕ) (timetick : ℤ) :
    Except Fault (EventPoller R) := do
  let base ← FdPollerBase.new os junk maxn timetick
  pure { base := base, kernel := fun _ => Driver.idle }

/-- An assignment to `entry_[fd]`. -/
def setEntry (p : EventPoller R) (fd : ℤ) (f : PollerEntry → PollerEntry) : EventPoller R :=
  { p with base := p.base.setEntry fd f }

/-- `FdPollerBase::add_fd`; `a` is the address of the entry `pending_new_` makes, if it makes one.
-/
def addFd (p : EventPoller R) (a : ℕ) (fd : ℤ) (reactor : Option ℕ) :
    Except Fault (EventPoller R × ℤ) :=
  if ¬ p.base.InRange fd then .ok (p, axRetError)
  else if (p.base.entry fd).status ≠ .empty then do
    let m ← p.base.pendingNew.insert a fd reactor
    pure ({ p with base := { p.base with pendingNew := m } }, axRetAgain)
  else do
    let p := p.setEntry fd fun _ => { reactor := reactor, evMask := evNull, status := .active }
    let (p, _) ← Driver.addEvent p fd evRead
    pure (p, axRetOk)

/-- `FdPollerBase::wait_close`. -/
def waitClose (p : EventPoller R) (fd : ℤ) : Except Fault (EventPoller R × ℤ) :=
  if ¬ p.base.InRange fd then .ok (p, axRetError)
  else if (p.base.entry fd).status ≠ .active then .ok (p, axRetError)
  else do
    let (p, _) ← Driver.delEvent p fd (evRead ||| evWrite)
    pure (p.setEntry fd fun e => { e with status := .waitClose, reactor := none }, axRetOk)

/-- `FdPollerBase::close_fd`. -/
def closeFd (p : EventPoller R) (fd : ℤ) : Except Fault (EventPoller R × ℤ) := do
  let (base, r) ← p.base.closeFd fd
  pure ({ p with base := base }, r)

/-- `FdPollerBase::set_reactor`. -/
def setReactor (p : EventPoller R) (fd : ℤ) (reactor : Option ℕ) : EventPoller R × ℤ :=
  ({ p with base := (p.base.setReactor fd reactor).1 }, (p.base.setReactor fd reactor).2)

/-- The loop of `process` over the retired descriptors, as in `FdPollerBase.closeRetired`. -/
def closeRetired : ℕ → ℕ → EventPoller R → Except Fault (EventPoller R × List ℤ)
  | 0, _, p => .ok (p, [])
  | n + 1, i, p => do
      let fd := p.base.retired i
      if 0 ≤ fd ∧ fd < p.base.maxFds then
        let (p, _) ← Driver.delEvent p fd (evRead ||| evWrite)
        let p := { p with base := p.base.resetFd fd }
        let closed := if (p.base.entry fd).status ≠ .empty then [fd] else []
        let (p, rest) ← closeRetired n (i + 1) p
        pure (p, closed ++ rest)
      else .error .badAccess

/-- The loop of `process` along `pending_new_`, as in `FdPollerBase.applyPending`. -/
def applyPending : ℕ → EventPoller R → Option ℕ →
    Except Fault (EventPoller R × List (ℕ × ℤ × Option ℕ))
  | _, p, none => .ok (p, [])
  | 0, _, some _ => .error .hang
  | fuel + 1, p, some a => do
      let e ← deref p.base.pendingNew.entries a
      if 0 ≤ e.key ∧ e.key < p.base.maxFds then
        let p := p.setEntry e.key fun _ =>
          { reactor := e.data, status := .active, evMask := evNull }
        let (p, _) ← Driver.addEvent p e.key evRead
        let (p, rest) ← applyPending fuel p e.linkNext
        pure (p, (a, e.key, e.data) :: rest)
      else .error .badAccess

/-- The part of `FdPollerBase::process` after `do_poll`. -/
def finish (p : EventPoller R) : Except Fault (EventPoller R × PollerLog) := do
  let (p, closed) ← closeRetired p.base.retiredSz 0 p
  let p := { p with base := { p.base with retiredSz := 0 } }
  let (p, applied) ← applyPending p.base.pendingNew.entries.bound p p.base.pendingNew.linkHead
  pure (p, { applied := applied, closed := closed })

end EventPoller

/-! ## Dispatching -/

/-- What a callback may call; the reactors it passes are not `NULL`. -/
inductive Request where
  | addFd (fd : ℤ) (reactor : ℕ)
  | setReactor (fd : ℤ) (reactor : ℕ)
  | waitClose (fd : ℤ)
  | closeFd (fd : ℤ)
deriving DecidableEq, Repr

/-- A call `reactor->on_ev_read(fd)` or `reactor->on_ev_write(fd)`, with the status of the entry at
that moment. -/
structure Callback where
  fd : ℤ
  write : Bool
  reactor : ℕ
  status : FdStatus
deriving DecidableEq, Repr

/-- A callback that has returned, and the calls it made with what they returned. -/
structure Done where
  callback : Callback
  calls : List (Request × ℤ)
deriving DecidableEq, Repr

/-- What the reactors do: any function of the callbacks before, and of the callback itself. -/
abbrev Reaction := List Done → Callback → List Request

namespace EventPoller

variable {R : Type} [Driver R]

/-- Makes a call; `malloc` chooses the address of an entry of `pending_new_`. -/
def request (malloc : Allocator (HmapEntry ℤ ℕ)) (p : EventPoller R) :
    Request → Except Fault (EventPoller R × ℤ)
  | .addFd fd reactor => p.addFd (malloc.new p.base.pendingNew.entries) fd (some reactor)
  | .setReactor fd reactor => .ok (p.setReactor fd (some reactor))
  | .waitClose fd => p.waitClose fd
  | .closeFd fd => p.closeFd fd

/-- Makes the calls one after the other. -/
def requests (malloc : Allocator (HmapEntry ℤ ℕ)) :
    EventPoller R → List Request → Except Fault (EventPoller R × List (Request × ℤ))
  | p, [] => .ok (p, [])
  | p, c :: cs => do
      let (p, r) ← p.request malloc c
      let (p, rs) ← requests malloc p cs
      pure (p, (c, r) :: rs)

/-- `pe->reactor->on_ev_read(fd)`, or `on_ev_write(fd)`. -/
def callback (malloc : Allocator (HmapEntry ℤ ℕ)) (react : Reaction) (p : EventPoller R)
    (hist : List Done) (fd : ℤ) (write : Bool) : Except Fault (EventPoller R × List Done) :=
  match (p.base.entry fd).reactor with
  | none => .error .badAccess
  | some r => do
      let cb : Callback := ⟨fd, write, r, (p.base.entry fd).status⟩
      let (p, calls) ← p.requests malloc (react hist cb)
      pure (p, hist ++ [⟨cb, calls⟩])

/-- The loop of `do_poll`, whose body is `one`. -/
def dispatchAll {ε : Type}
    (one : EventPoller R → List Done → ε → Except Fault (EventPoller R × List Done)) :
    EventPoller R → List Done → List ε → Except Fault (EventPoller R × List Done)
  | p, hist, [] => .ok (p, hist)
  | p, hist, e :: es => do
      let (p, hist) ← one p hist e
      dispatchAll one p hist es

/-- `do_poll` after the kernel has been asked for events: `none` is the result -1. -/
def poll {ε : Type}
    (one : EventPoller R → List Done → ε → Except Fault (EventPoller R × List Done))
    (p : EventPoller R) : Option (List ε) → Except Fault (EventPoller R × List Done × ℤ)
  | none => .ok (p, [], axRetError)
  | some es => do
      let (p, hist) ← dispatchAll one p [] es
      pure (p, hist, es.length)

end EventPoller

namespace EpollPoller

/-- An element of `event_list_`: `data.fd`, and which of `EPOLLIN` and `EPOLLOUT` are set. -/
structure Event where
  fd : ℤ
  ready : Interest

/-- The body of the loop of `EpollPoller::do_poll`. -/
def dispatch (malloc : Allocator (HmapEntry ℤ ℕ)) (react : Reaction) (p : EventPoller Reg)
    (hist : List Done) (e : Event) : Except Fault (EventPoller Reg × List Done) :=
  if ¬ (0 ≤ e.fd ∧ e.fd < p.base.maxFds) then .error .badAccess
  else if (p.base.entry e.fd).status ≠ .active then do
    let (p, _) ← delEvent p e.fd (evRead ||| evWrite)
    pure (p, hist)
  else do
    let (p, hist) ← if e.ready.read then p.callback malloc react hist e.fd false else .ok (p, hist)
    if e.ready.write then p.callback malloc react hist e.fd true else .ok (p, hist)

/-- `EpollPoller::do_poll`. -/
def doPoll (malloc : Allocator (HmapEntry ℤ ℕ)) (react : Reaction) (p : EventPoller Reg)
    (events : Option (List Event)) : Except Fault (EventPoller Reg × List Done × ℤ) :=
  p.poll (dispatch malloc react) events

end EpollPoller

namespace KqueuePoller

/-- An element of `event_list_`: `ident`, and whether the filter is `EVFILT_WRITE` or `EVFILT_READ`.
-/
structure Event where
  fd : ℤ
  write : Bool

/-- The body of the loop of `KqueuePoller::do_poll`. -/
def dispatch (malloc : Allocator (HmapEntry ℤ ℕ)) (react : Reaction) (p : EventPoller Reg)
    (hist : List Done) (e : Event) : Except Fault (EventPoller Reg × List Done) :=
  if ¬ (0 ≤ e.fd ∧ e.fd < p.base.maxFds) then .error .badAccess
  else if (p.base.entry e.fd).status ≠ .active then do
    let (p, _) ← delEvent p e.fd (evRead ||| evWrite)
    pure (p, hist)
  else p.callback malloc react hist e.fd e.write

/-- `KqueuePoller::do_poll`. -/
def doPoll (malloc : Allocator (HmapEntry ℤ ℕ)) (react : Reaction) (p : EventPoller Reg)
    (events : Option (List Event)) : Except Fault (EventPoller Reg × List Done × ℤ) :=
  p.poll (dispatch malloc react) events

end KqueuePoller

end Axon
