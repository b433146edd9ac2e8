import Axon.Core.EventPoller
import Axon.Library.Traced

/-!
# Accesses to the tables of a poller

`entry_` and `retired_` have `max_fds_` elements.  Every member function tests the descriptor it is
given, each in its own way: `add_event` of both pollers and `del_event` of `KqueuePoller` let
`max_fds_` itself through, and `close_fd` tests nothing.

* **`PublicCall`** : a call from outside, or from a callback.
* **`Noted`** : an element accessed, or a call made.
* **`Backend`** : in what the two pollers differ: their range tests, and their events.
* **`Kernel`** : what the operating system answers.  It may refuse any request, and reports events
  of descriptors that are registered.
* **`EventPoller.Logged`** : the functions of the poller once more, each logging the elements it
  accesses.  Forgetting the log gives the functions back (`finish_result`, `dispatchAll_result`).
* **`Indexed`** : what makes a turn of the loop stay inside the tables.
* **`indexes_inside`** : a run stays inside as long as its calls are allowed.
-/

namespace Axon

open Library

/-- A public function of a poller, and its parameters. -/
inductive PublicCall where
  | addFd (fd : ℤ) (reactor : Option ℕ)
  | setReactor (fd : ℤ) (reactor : Option ℕ)
  | waitClose (fd : ℤ)
  | closeFd (fd : ℤ)
  | addEvent (fd : ℤ) (flag : ℕ)
  | delEvent (fd : ℤ) (flag : ℕ)
deriving DecidableEq, Repr

/-- What is logged. -/
inductive Noted where
  /-- `entry_[fd]` -/
  | entry (fd : ℤ)
  /-- `retired_[j]` -/
  | retired (j : ℤ)
  /-- A call, and `retired_sz_` at that moment. -/
  | call (c : PublicCall) (retiredSz : ℕ)
deriving DecidableEq, Repr

/-- In what the two pollers differ. -/
class Backend (R : Type) [Driver R] where
  /-- The elements of `event_list_`. -/
  Event : Type
  eventFd : Event → ℤ
  /-- The callbacks made for an event of an active descriptor; `true` is `on_ev_write`. -/
  callbacks : Event → List Bool
  /-- The largest descriptor that the range test of `add_event` lets through, for this `max_fds_`.
  -/
  addLimit : ℕ → ℤ
  /-- The same for `del_event`. -/
  delLimit : ℕ → ℤ
  addEvent_def : ∀ (p : EventPoller R) (fd : ℤ) (flag : ℕ), Driver.addEvent p fd flag =
    if fd < 0 ∨ addLimit p.base.maxFds < fd then .ok (p, axRetError)
    else p.onEntry fd (Driver.add flag)
  delEvent_def : ∀ (p : EventPoller R) (fd : ℤ) (flag : ℕ), Driver.delEvent p fd flag =
    if fd < 0 ∨ delLimit p.base.maxFds < fd then .ok (p, axRetError)
    else p.onEntry fd (Driver.del flag)

instance : Backend EpollPoller.Reg where
  Event := EpollPoller.Event
  eventFd := EpollPoller.Event.fd
  callbacks e := (if e.ready.read then [false] else []) ++ if e.ready.write then [true] else []
  addLimit maxn := i32 maxn
  delLimit maxn := maxn - 1
  addEvent_def _ _ _ := rfl
  delEvent_def p fd _ := by
    have hlt : (p.base.maxFds : ℤ) - 1 < fd ↔ p.base.maxFds ≤ fd := Int.sub_one_lt_iff
    simp only [hlt]
    rfl

instance : Backend KqueuePoller.Reg where
  Event := KqueuePoller.Event
  eventFd := KqueuePoller.Event.fd
  callbacks e := [e.write]
  addLimit maxn := i32 maxn
  delLimit maxn := i32 maxn
  addEvent_def _ _ _ := rfl
  delEvent_def _ _ _ := rfl

/-- What the operating system answers: what `add_event` and `del_event` make of an entry and of the
registration when the descriptor has passed their test, and the events reported. -/
structure Kernel (R : Type) [Driver R] [Backend R] where
  add : ℤ → ℕ → Watch R → Watch R × ℤ
  del : ℤ → ℕ → Watch R → Watch R × ℤ
  /-- `epoll_wait`, or `kevent`; `none` is the result -1. -/
  wait : (ℤ → R) → Option (List (Backend.Event R))
  registered : ∀ {reg : ℤ → R} {es : List (Backend.Event R)} {e : Backend.Event R},
    wait reg = some es → e ∈ es → reg (Backend.eventFd e) ≠ Driver.idle

namespace Kernel

variable {R : Type} [Driver R] [Backend R]

/-- The operating system refuses a request only for what it has registered, as in `Driver`. -/
def Open (k : Kernel R) : Prop := (∀ fd, k.add fd = Driver.add) ∧ ∀ fd, k.del fd = Driver.del

/-- The same operating system, when there are no events. -/
def quiet (k : Kernel R) : Kernel R where
  add := k.add
  del := k.del
  wait _ := some []
  registered h he := by
    obtain rfl := Option.some.inj h
    exact absurd he List.not_mem_nil

end Kernel

namespace EventPoller

/-- A computation on a poller, with what it accesses. -/
abbrev Accessing := Traced Noted Fault

namespace Logged

variable {R H : Type} [Driver R] [Backend R]

/-! ## The functions of the poller -/

/-- Reads `entry_[fd]`. -/
def entryAt (p : EventPoller R) (fd : ℤ) : Accessing PollerEntry :=
  .tell (.entry fd)
    (if 0 ≤ fd ∧ fd < p.base.maxFds then .ok (p.base.entry fd) else .error .badAccess)

/-- `add_event`. -/
def addEvent (k : Kernel R) (p : EventPoller R) (fd : ℤ) (flag : ℕ) :
    Accessing (EventPoller R × ℤ) :=
  if fd < 0 ∨ Backend.addLimit R p.base.maxFds < fd then pure (p, axRetError)
  else .tell (.entry fd) (p.onEntry fd (k.add fd flag))

/-- `del_event`. -/
def delEvent (k : Kernel R) (p : EventPoller R) (fd : ℤ) (flag : ℕ) :
    Accessing (EventPoller R × ℤ) :=
  if fd < 0 ∨ Backend.delLimit R p.base.maxFds < fd then pure (p, axRetError)
  else .tell (.entry fd) (p.onEntry fd (k.del fd flag))

/-- `FdPollerBase::reset_fd`. -/
def resetFd (p : EventPoller R) (fd : ℤ) : Accessing (EventPoller R) :=
  if p.base.InRange fd then .tell (.entry fd) (.ok { p with base := p.base.resetFd fd })
  else pure p

/-- `FdPollerBase::add_fd`; `malloc` chooses the address of an entry of `pending_new_`. -/
def addFd (malloc : Allocator (HmapEntry ℤ ℕ)) (k : Kernel R) (p : EventPoller R) (fd : ℤ)
    (reactor : Option ℕ) : Accessing (EventPoller R × ℤ) :=
  if ¬ p.base.InRange fd then pure (p, axRetError)
  else do
    let pe ← entryAt p fd
    if pe.status ≠ .empty then do
      let m ← .lift (p.base.pendingNew.insert (malloc.new p.base.pendingNew.entries) fd reactor)
      pure ({ p with base := { p.base with pendingNew := m } }, axRetAgain)
    else do
      let p := p.setEntry fd fun _ => { reactor := reactor, evMask := evNull, status := .active }
      let (p, _) ← addEvent k p fd evRead
      pure (p, axRetOk)

/-- `FdPollerBase::wait_close`. -/
def waitClose (k : Kernel R) (p : EventPoller R) (fd : ℤ) : Accessing (EventPoller R × ℤ) :=
  if ¬ p.base.InRange fd then pure (p, axRetError)
  else do
    let pe ← entryAt p fd
    if pe.status ≠ .active then pure (p, axRetError)
    else do
      let (p, _) ← delEvent k p fd (evRead ||| evWrite)
      pure (p.setEntry fd fun e => { e with status := .waitClose, reactor := none }, axRetOk)

/-- `FdPollerBase::close_fd`; `retired_sz_` is an `int`. -/
def closeFd (p : EventPoller R) (fd : ℤ) : Accessing (EventPoller R × ℤ) :=
  .tell (.retired (i32 p.base.retiredSz)) (p.closeFd fd)

/-- `FdPollerBase::set_reactor`. -/
def setReactor (p : EventPoller R) (fd : ℤ) (reactor : Option ℕ) :
    Accessing (EventPoller R × ℤ) :=
  if ¬ p.base.InRange fd then pure (p, axRetError)
  else do
    let pe ← entryAt p fd
    if pe.status ≠ .active then pure (p, axRetError)
    else do
      let _ ← entryAt p fd
      pure (p.setEntry fd fun e => { e with reactor := reactor }, axRetOk)

/-- What a call does. -/
def perform (malloc : Allocator (HmapEntry ℤ ℕ)) (k : Kernel R) (p : EventPoller R) :
    PublicCall → Accessing (EventPoller R × ℤ)
  | .addFd fd reactor => addFd malloc k p fd reactor
  | .setReactor fd reactor => setReactor p fd reactor
  | .waitClose fd => waitClose k p fd
  | .closeFd fd => closeFd p fd
  | .addEvent fd flag => addEvent k p fd flag
  | .delEvent fd flag => delEvent k p fd flag

/-- Makes a call. -/
def call (malloc : Allocator (HmapEntry ℤ ℕ)) (k : Kernel R) (p : EventPoller R)
    (c : PublicCall) : Accessing (EventPoller R × ℤ) := do
  let _ ← .tell (.call c p.base.retiredSz) (.ok ())
  perform malloc k p c

/-- Makes the calls one after the other. -/
def calls (malloc : Allocator (HmapEntry ℤ ℕ)) (k : Kernel R) :
    EventPoller R → List PublicCall → Accessing (EventPoller R)
  | p, [] => pure p
  | p, c :: cs => do
      let (p, _) ← call malloc k p c
      calls malloc k p cs

/-- `pe->reactor->on_ev_read(fd)`, or `on_ev_write(fd)`: the callback number `j`, which makes the
calls `env j`. -/
def callback (malloc : Allocator (HmapEntry ℤ ℕ)) (k : Kernel R) (env : ℕ → List PublicCall)
    (p : EventPoller R) (j : ℕ) (fd : ℤ) (_write : Bool) : Accessing (EventPoller R × ℕ) :=
  match (p.base.entry fd).reactor with
  | none => .lift (.error .badAccess)
  | some _ => do
      let p ← calls malloc k p (env j)
      pure (p, j + 1)

/-- The callbacks for one event. -/
def callbacks (cb : EventPoller R → H → ℤ → Bool → Accessing (EventPoller R × H)) (fd : ℤ) :
    EventPoller R → H → List Bool → Accessing (EventPoller R × H)
  | p, h, [] => pure (p, h)
  | p, h, write :: rest => do
      let (p, h) ← cb p h fd write
      callbacks cb fd p h rest

/-- The body of the loop of `do_poll`. -/
def dispatch (k : Kernel R) (cb : EventPoller R → H → ℤ → Bool → Accessing (EventPoller R × H))
    (p : EventPoller R) (h : H) (e : Backend.Event R) : Accessing (EventPoller R × H) := do
  let pe ← entryAt p (Backend.eventFd e)
  if pe.status ≠ .active then do
    let (p, _) ← delEvent k p (Backend.eventFd e) (evRead ||| evWrite)
    pure (p, h)
  else callbacks cb (Backend.eventFd e) p h (Backend.callbacks e)

/-- The loop of `do_poll`. -/
def dispatchAll (k : Kernel R)
    (cb : EventPoller R → H → ℤ → Bool → Accessing (EventPoller R × H)) :
    EventPoller R → H → List (Backend.Event R) → Accessing (EventPoller R × H)
  | p, h, [] => pure (p, h)
  | p, h, e :: es => do
      let (p, h) ← dispatch k cb p h e
      dispatchAll k cb p h es

/-- `do_poll`. -/
def doPoll (malloc : Allocator (HmapEntry ℤ ℕ)) (k : Kernel R) (env : ℕ → List PublicCall)
    (p : EventPoller R) : Accessing (EventPoller R) :=
  match k.wait p.kernel with
  | none => pure p
  | some es => do
      let (p, _) ← dispatchAll k (callback malloc k env) p 0 es
      pure p

/-- The loop of `process` over the retired descriptors. -/
def closeRetired (k : Kernel R) : ℕ → ℕ → EventPoller R → Accessing (EventPoller R × List ℤ)
  | 0, _, p => pure (p, [])
  | n + 1, i, p => do
      let fd ← .tell (.retired i) (.ok (p.base.retired i))
      let (p, _) ← delEvent k p fd (evRead ||| evWrite)
      let p ← resetFd p fd
      let pe ← entryAt p fd
      let closed := if pe.status ≠ .empty then [fd] else []
      let (p, rest) ← closeRetired k n (i + 1) p
      pure (p, closed ++ rest)

/-- The loop of `process` along `pending_new_`. -/
def applyPending (k : Kernel R) : ℕ → EventPoller R → Option ℕ →
    Accessing (EventPoller R × List (ℕ × ℤ × Option ℕ))
  | _, p, none => pure (p, [])
  | 0, _, some _ => .lift (.error .hang)
  | fuel + 1, p, some a => do
      let e ← .lift (deref p.base.pendingNew.entries a)
      let _ ← entryAt p e.key
      let p := p.setEntry e.key fun _ =>
        { reactor := e.data, status := .active, evMask := evNull }
      let (p, _) ← addEvent k p e.key evRead
      let (p, rest) ← applyPending k fuel p e.linkNext
      pure (p, (a, e.key, e.data) :: rest)

/-- The part of `FdPollerBase::process` after `do_poll`. -/
def finish (k : Kernel R) (p : EventPoller R) : Accessing (EventPoller R × PollerLog) := do
  let (p, closed) ← closeRetired k p.base.retiredSz 0 p
  let p := { p with base := { p.base with retiredSz := 0 } }
  let (p, applied) ← applyPending k p.base.pendingNew.entries.bound p p.base.pendingNew.linkHead
  pure (p, { applied := applied, closed := closed })

/-- `FdPollerBase::process`, where the callbacks of the timer make the calls `timer`, and the
callbacks of `do_poll` the calls `env`. -/
def process (malloc : Allocator (HmapEntry ℤ ℕ)) (k : Kernel R) (timer : List PublicCall)
    (env : ℕ → List PublicCall) (p : EventPoller R) : Accessing (EventPoller R) := do
  let p ← calls malloc k p timer
  let p ← doPoll malloc k env p
  let (p, _) ← finish k p
  pure p

/-- A call, or a turn of the loop. -/
inductive Step (R : Type) [Driver R] [Backend R] where
  | call (k : Kernel R) (c : PublicCall)
  | process (k : Kernel R) (timer : List PublicCall) (env : ℕ → List PublicCall)

/-- Makes a step. -/
def step (malloc : Allocator (HmapEntry ℤ ℕ)) (p : EventPoller R) :
    Step R → Accessing (EventPoller R)
  | .call k c => do
      let (p, _) ← call malloc k p c
      pure p
  | .process k timer env => process malloc k timer env p

/-- A run. -/
def run (malloc : Allocator (HmapEntry ℤ ℕ)) :
    EventPoller R → List (Step R) → Accessing (EventPoller R)
  | p, [] => pure p
  | p, s :: steps => do
      let p ← step malloc p s
      run malloc p steps

/-! ## Forgetting the log -/

section Results

open Traced

variable {malloc : Allocator (HmapEntry ℤ ℕ)} {k : Kernel R} {p : EventPoller R} {fd : ℤ}

omit [Driver R] [Backend R] in
lemma entryAt_result (h : 0 ≤ fd ∧ fd < p.base.maxFds) :
    (entryAt p fd).result = .ok (p.base.entry fd) := if_pos h

lemma addEvent_result (hk : k.Open) (flag : ℕ) :
    (addEvent k p fd flag).result = Driver.addEvent p fd flag := by
  rw [addEvent, Backend.addEvent_def, result_ite, hk.1]
  rfl

lemma delEvent_result (hk : k.Open) (flag : ℕ) :
    (delEvent k p fd flag).result = Driver.delEvent p fd flag := by
  rw [delEvent, Backend.delEvent_def, result_ite, hk.2]
  rfl

omit [Driver R] [Backend R] in
lemma resetFd_result : (resetFd p fd).result = .ok { p with base := p.base.resetFd fd } := by
  rw [resetFd, FdPollerBase.resetFd]
  split_ifs <;> rfl

lemma addFd_result (hk : k.Open) (reactor : Option ℕ) : (addFd malloc k p fd reactor).result =
    p.addFd (malloc.new p.base.pendingNew.entries) fd reactor := by
  rw [addFd, EventPoller.addFd]
  by_cases hrange : p.base.InRange fd
  · rw [if_neg (not_not.mpr hrange), if_neg (not_not.mpr hrange), result_bind,
      entryAt_result hrange.lt_maxFds, ok_bind, result_ite]
    simp only [result_bind, addEvent_result hk]
    rfl
  · rw [if_pos hrange, if_pos hrange]
    rfl

lemma waitClose_result (hk : k.Open) : (waitClose k p fd).result = p.waitClose fd := by
  rw [waitClose, EventPoller.waitClose]
  by_cases hrange : p.base.InRange fd
  · rw [if_neg (not_not.mpr hrange), if_neg (not_not.mpr hrange), result_bind,
      entryAt_result hrange.lt_maxFds, ok_bind, result_ite]
    simp only [result_bind, delEvent_result hk]
    rfl
  · rw [if_pos hrange, if_pos hrange]
    rfl

omit [Driver R] [Backend R] in
lemma setReactor_result (reactor : Option ℕ) :
    (setReactor p fd reactor).result = .ok (p.setReactor fd reactor) := by
  rw [setReactor, EventPoller.setReactor, FdPollerBase.setReactor]
  by_cases hrange : p.base.InRange fd
  · rw [if_neg (not_not.mpr hrange), if_neg (not_not.mpr hrange), result_bind,
      entryAt_result hrange.lt_maxFds, ok_bind, result_ite, result_bind,
      entryAt_result hrange.lt_maxFds]
    split_ifs <;> rfl
  · rw [if_pos hrange, if_pos hrange]
    rfl

/-- The call that a request of a callback is. -/
def ofRequest : Request → PublicCall
  | .addFd fd reactor => .addFd fd (some reactor)
  | .setReactor fd reactor => .setReactor fd (some reactor)
  | .waitClose fd => .waitClose fd
  | .closeFd fd => .closeFd fd

/-- **A call**, as it is without the log. -/
theorem call_result (hk : k.Open) (c : Request) :
    (call malloc k p (ofRequest c)).result = p.request malloc c := by
  rw [call, result_bind, result_tell, ok_bind]
  cases c with
  | addFd fd reactor => exact addFd_result hk _
  | setReactor fd reactor => exact setReactor_result _
  | waitClose fd => exact waitClose_result hk
  | closeFd fd => rfl

lemma closeRetired_result (hk : k.Open) (n i : ℕ) (p : EventPoller R) :
    (closeRetired k n i p).result = EventPoller.closeRetired n i p := by
  induction n generalizing i p with
  | zero => rfl
  | succ n ih =>
      rw [closeRetired, EventPoller.closeRetired, result_bind, result_tell, ok_bind, result_bind,
        delEvent_result hk]
      by_cases hin : 0 ≤ p.base.retired i ∧ p.base.retired i < p.base.maxFds
      · rw [if_pos hin]
        cases hdel : Driver.delEvent p (p.base.retired i) (evRead ||| evWrite) with
        | error f => rfl
        | ok r =>
            obtain ⟨w, hw⟩ := Driver.delEvent_touches hdel
            have hin' : 0 ≤ p.base.retired i ∧
                p.base.retired i < (r.1.base.resetFd (p.base.retired i)).maxFds := by
              rw [hw, FdPollerBase.resetFd]
              split_ifs <;> exact hin
            simp only [ok_bind, result_bind, resetFd_result, result_pure, ih]
            rw [entryAt_result hin', ok_bind]
            rfl
      · rw [if_neg hin]
        cases hdel : Driver.delEvent p (p.base.retired i) (evRead ||| evWrite) with
        | error f =>
            rw [Backend.delEvent_def, onEntry, if_neg hin] at hdel
            split_ifs at hdel
            obtain rfl := Except.error.inj hdel
            rfl
        | ok r =>
            obtain ⟨w, hw⟩ := Driver.delEvent_touches hdel
            have hout : ¬ (0 ≤ p.base.retired i ∧
                p.base.retired i < (r.1.base.resetFd (p.base.retired i)).maxFds) := by
              rw [hw, FdPollerBase.resetFd]
              split_ifs <;> exact hin
            simp only [ok_bind, result_bind, resetFd_result]
            rw [entryAt, result_tell, if_neg hout]
            rfl

lemma applyPending_result (hk : k.Open) (fuel : ℕ) (p : EventPoller R) (q : Option ℕ) :
    (applyPending k fuel p q).result = EventPoller.applyPending fuel p q := by
  induction fuel generalizing p q with
  | zero => cases q <;> rfl
  | succ fuel ih =>
      cases q with
      | none => rfl
      | some a =>
          rw [applyPending, EventPoller.applyPending, result_bind, result_lift]
          refine bind_congr fun e => ?_
          rw [result_bind]
          split_ifs with hin
          · rw [entryAt_result hin, ok_bind]
            simp only [result_bind, addEvent_result hk, ih, result_pure]
            rfl
          · rw [entryAt, result_tell, if_neg hin]
            rfl

/-- **The end of a turn**, as it is without the log. -/
theorem finish_result (hk : k.Open) (p : EventPoller R) : (finish k p).result = p.finish := by
  rw [finish, EventPoller.finish, result_bind, closeRetired_result hk]
  refine bind_congr fun r => ?_
  rw [result_bind, applyPending_result hk]
  rfl

/-- **The loop of `do_poll`**, as it is without the log, where its body is. -/
theorem dispatchAll_result
    {cb : EventPoller R → List Done → ℤ → Bool → Accessing (EventPoller R × List Done)}
    {one : EventPoller R → List Done → Backend.Event R → Except Fault (EventPoller R × List Done)}
    (hone : ∀ p hist e, (dispatch k cb p hist e).result = one p hist e) (p : EventPoller R)
    (hist : List Done) (es : List (Backend.Event R)) :
    (dispatchAll k cb p hist es).result = EventPoller.dispatchAll one p hist es := by
  induction es generalizing p hist with
  | nil => rfl
  | cons e es ih =>
      rw [dispatchAll, EventPoller.dispatchAll, result_bind, hone]
      exact bind_congr fun r => ih r.1 r.2

omit [Driver R] [Backend R] in
lemma callbacks_one (cb : EventPoller R → H → ℤ → Bool → Accessing (EventPoller R × H)) (fd : ℤ)
    (p : EventPoller R) (h : H) (write : Bool) :
    (callbacks cb fd p h [write]).result = (cb p h fd write).result := by
  rw [callbacks, result_bind]
  exact bind_pure _

lemma dispatch_result (hk : k.Open)
    (cb : EventPoller R → H → ℤ → Bool → Accessing (EventPoller R × H)) (p : EventPoller R) (h : H)
    (e : Backend.Event R) : (dispatch k cb p h e).result =
      if ¬ (0 ≤ Backend.eventFd e ∧ Backend.eventFd e < p.base.maxFds) then .error .badAccess
      else if (p.base.entry (Backend.eventFd e)).status ≠ .active then do
        let (p, _) ← Driver.delEvent p (Backend.eventFd e) (evRead ||| evWrite)
        pure (p, h)
      else (callbacks cb (Backend.eventFd e) p h (Backend.callbacks e)).result := by
  rw [dispatch, result_bind]
  by_cases hin : 0 ≤ Backend.eventFd e ∧ Backend.eventFd e < p.base.maxFds
  · rw [entryAt_result hin, ok_bind, if_neg (not_not.mpr hin), result_ite, result_bind,
      delEvent_result hk]
    rfl
  · rw [entryAt, result_tell, if_neg hin, if_pos hin]
    rfl

/-- The body of the loop in `EpollPoller`. -/
lemma epoll_dispatch_result {react : Reaction} {k : Kernel EpollPoller.Reg} (hk : k.Open)
    {cb : EventPoller EpollPoller.Reg → List Done → ℤ → Bool →
      Accessing (EventPoller EpollPoller.Reg × List Done)}
    (hcb : ∀ p hist fd write, (cb p hist fd write).result = p.callback malloc react hist fd write)
    (p : EventPoller EpollPoller.Reg) (hist : List Done) (e : EpollPoller.Event) :
    (dispatch k cb p hist e).result = EpollPoller.dispatch malloc react p hist e := by
  rw [EpollPoller.dispatch]
  refine (dispatch_result hk cb p hist e).trans
    (if_congr Iff.rfl rfl (if_congr Iff.rfl rfl ?_))
  obtain ⟨fd, read, write⟩ := e
  cases read with
  | false =>
      cases write with
      | false => rfl
      | true => exact (callbacks_one cb fd p hist true).trans (hcb p hist fd true)
  | true =>
      cases write with
      | false =>
          refine (callbacks_one cb fd p hist false).trans ((hcb p hist fd false).trans ?_)
          exact (bind_pure _).symm
      | true =>
          refine (result_bind ..).trans ?_
          rw [hcb]
          refine bind_congr fun r => ?_
          exact (callbacks_one cb fd r.1 r.2 true).trans (hcb r.1 r.2 fd true)

/-- The body of the loop in `KqueuePoller`. -/
lemma kqueue_dispatch_result {react : Reaction} {k : Kernel KqueuePoller.Reg} (hk : k.Open)
    {cb : EventPoller KqueuePoller.Reg → List Done → ℤ → Bool →
      Accessing (EventPoller KqueuePoller.Reg × List Done)}
    (hcb : ∀ p hist fd write, (cb p hist fd write).result = p.callback malloc react hist fd write)
    (p : EventPoller KqueuePoller.Reg) (hist : List Done) (e : KqueuePoller.Event) :
    (dispatch k cb p hist e).result = KqueuePoller.dispatch malloc react p hist e := by
  rw [KqueuePoller.dispatch]
  refine (dispatch_result hk cb p hist e).trans
    (if_congr Iff.rfl rfl (if_congr Iff.rfl rfl ?_))
  exact (callbacks_one cb e.fd p hist e.write).trans (hcb p hist e.fd e.write)

end Results

/-! ## Staying inside -/

/-- An access is inside its table, of `maxn` elements. -/
def Inside (maxn : ℕ) : Noted → Prop
  | .entry fd => 0 ≤ fd ∧ fd < maxn
  | .retired j => 0 ≤ j ∧ j < maxn
  | .call _ _ => True

/-- **The calls allowed** when `sz` descriptors are retired: a descriptor that `add_event` and
`del_event` let through has an entry, and so does one handed to `close_fd`, for which there is room
in `retired_`. -/
def Allowed (R : Type) [Driver R] [Backend R] (maxn sz : ℕ) : PublicCall → Prop
  | .addFd _ _ | .setReactor _ _ | .waitClose _ => True
  | .addEvent fd _ => 0 ≤ fd → fd ≤ Backend.addLimit R maxn → fd < maxn
  | .delEvent fd _ => 0 ≤ fd → fd ≤ Backend.delLimit R maxn → fd < maxn
  | .closeFd fd => sz < maxn ∧ sz < 2 ^ 31 ∧ 0 ≤ fd ∧ fd < maxn

/-- The calls logged are allowed. -/
def Meets (R : Type) [Driver R] [Backend R] (maxn : ℕ) : Noted → Prop
  | .call c sz => Allowed R maxn sz c
  | _ => True

/-- **What makes a turn stay inside.** -/
structure Indexed (maxn : ℕ) (p : EventPoller R) : Prop where
  maxFds : p.base.maxFds = maxn
  pending : p.base.PendingSound
  retired : ∀ i < p.base.retiredSz, 0 ≤ p.base.retired i ∧ p.base.retired i < maxn
  room : p.base.retiredSz ≤ maxn ∧ p.base.retiredSz ≤ 2 ^ 31
  /-- Only descriptors in range are registered. -/
  kernel : ∀ fd, p.kernel fd ≠ Driver.idle → 0 ≤ fd ∧ fd < maxn

/-- A computation that leaves the poller it returns `Indexed`, where its calls are allowed. -/
abbrev Keeps {α : Type} (maxn : ℕ) (poller : α → EventPoller R) (x : Accessing α) : Prop :=
  Traced.Relies (Meets R maxn) (Inside maxn) (fun a => Indexed maxn (poller a)) x

section Specs

open Traced

variable {malloc : Allocator (HmapEntry ℤ ℕ)} {k : Kernel R} {p : EventPoller R} {fd : ℤ}
  {maxn : ℕ}

namespace Indexed

omit [Backend R] in
lemma setEntry (h : Indexed maxn p) (fd : ℤ) (f : PollerEntry → PollerEntry) :
    Indexed maxn (p.setEntry fd f) :=
  ⟨h.maxFds, h.pending, h.retired, h.room, h.kernel⟩

omit [Backend R] in
lemma setWatch (h : Indexed maxn p) (hin : 0 ≤ fd ∧ fd < maxn) (w : Watch R) :
    Indexed maxn (p.setWatch fd w) := by
  refine ⟨h.maxFds, h.pending, h.retired, h.room, fun fd' hreg => ?_⟩
  rcases eq_or_ne fd' fd with rfl | hne
  · exact hin
  · have hsame : (p.setWatch fd w).kernel fd' = p.kernel fd' := Function.update_of_ne hne _ _
    exact h.kernel fd' (hsame ▸ hreg)

omit [Backend R] in
lemma resetFd (h : Indexed maxn p) (fd : ℤ) :
    Indexed maxn ({ p with base := p.base.resetFd fd } : EventPoller R) := by
  rw [FdPollerBase.resetFd]
  split_ifs
  · exact h.setEntry fd _
  · exact h

omit [Backend R] in
lemma inRange (h : Indexed maxn p) (hrange : p.base.InRange fd) : 0 ≤ fd ∧ fd < maxn := by
  rw [← h.maxFds]
  exact hrange.lt_maxFds

omit [Backend R] in
lemma onEntry (h : Indexed maxn p) (hin : 0 ≤ fd ∧ fd < maxn) (f : Watch R → Watch R × ℤ) :
    ∃ w, p.onEntry fd f = .ok (p.setWatch fd w, (f (p.watch fd)).2) ∧
      Indexed maxn (p.setWatch fd w) := by
  refine ⟨_, if_pos ?_, h.setWatch hin _⟩
  rw [h.maxFds]
  exact hin

end Indexed

omit [Driver R] [Backend R] in
lemma entryAt_spec {Q : PollerEntry → Prop} (hin : 0 ≤ fd ∧ fd < maxn)
    (hq : Q (p.base.entry fd)) : Spec (Inside maxn) Q (entryAt p fd) := by
  refine Spec.tell hin fun e he => ?_
  split_ifs at he
  obtain rfl := Except.ok.inj he
  exact hq

omit [Backend R] in
/-- `add_event` and `del_event` of a descriptor that has an entry, or that they do not let through.
-/
lemma onEntry_spec (h : Indexed maxn p) {limit : ℤ} (hin : 0 ≤ fd → fd ≤ limit → fd < maxn)
    (f : Watch R → Watch R × ℤ) :
    Spec (Inside maxn) (fun r => Indexed maxn r.1 ∧ r.1.base.retiredSz = p.base.retiredSz)
      (if fd < 0 ∨ limit < fd then pure (p, axRetError) else .tell (.entry fd) (p.onEntry fd f) :
        Accessing (EventPoller R × ℤ)) := by
  split_ifs with hout
  · exact Spec.pure ⟨h, rfl⟩
  · rw [not_or, not_lt, not_lt] at hout
    have hfd : 0 ≤ fd ∧ fd < maxn := ⟨hout.1, hin hout.1 hout.2⟩
    refine Spec.tell hfd fun r hr => ?_
    obtain ⟨w, hok, hw⟩ := h.onEntry hfd f
    obtain rfl := Except.ok.inj (hok.symm.trans hr)
    exact ⟨hw, rfl⟩

lemma addEvent_spec (h : Indexed maxn p) (hin : 0 ≤ fd → fd ≤ Backend.addLimit R maxn → fd < maxn)
    (flag : ℕ) : Spec (Inside maxn)
      (fun r => Indexed maxn r.1 ∧ r.1.base.retiredSz = p.base.retiredSz)
      (addEvent k p fd flag) := by
  rw [addEvent, h.maxFds]
  exact onEntry_spec h hin _

lemma delEvent_spec (h : Indexed maxn p) (hin : 0 ≤ fd → fd ≤ Backend.delLimit R maxn → fd < maxn)
    (flag : ℕ) : Spec (Inside maxn)
      (fun r => Indexed maxn r.1 ∧ r.1.base.retiredSz = p.base.retiredSz)
      (delEvent k p fd flag) := by
  rw [delEvent, h.maxFds]
  exact onEntry_spec h hin _

omit [Backend R] in
lemma resetFd_spec (h : Indexed maxn p) : Spec (Inside maxn)
    (fun p' => Indexed maxn p' ∧ p'.base.retiredSz = p.base.retiredSz) (resetFd p fd) := by
  have hreset := h.resetFd fd
  rw [resetFd]
  split_ifs with hrange
  · refine Spec.tell (h.inRange hrange) fun p' hp' => ?_
    obtain rfl := Except.ok.inj hp'
    refine ⟨hreset, ?_⟩
    rw [FdPollerBase.resetFd, if_pos hrange]
    rfl
  · exact Spec.pure ⟨h, rfl⟩

/-! ### The calls -/

lemma addFd_spec (h : Indexed maxn p) (reactor : Option ℕ) :
    Spec (Inside maxn) (fun r => Indexed maxn r.1) (addFd malloc k p fd reactor) := by
  rw [addFd]
  split_ifs with hrange
  · have hin := h.inRange hrange
    refine (entryAt_spec hin trivial : Spec _ (fun _ => True) _).bind fun pe _ => ?_
    split_ifs with hempty
    · obtain ⟨l, b, hstores, hkeys⟩ := h.pending
      obtain ⟨m, b', hins, -, hstores'⟩ :=
        hstores.insert (malloc.fresh p.base.pendingNew.entries) fd reactor
      rw [hins]
      refine (Spec.lift fun m' hm' => ?_ : Spec _ (fun m' => m' = m) _).bind fun m' hm' =>
        Spec.pure ?_
      · exact (Except.ok.inj hm').symm
      · subst hm'
        refine ⟨h.maxFds, ⟨_, b', hstores', fun c hc => ?_⟩, h.retired, h.room, h.kernel⟩
        rcases List.mem_cons.mp hc with rfl | hc
        · exact hrange
        · exact hkeys c hc
    · have hp := h.setEntry fd fun _ =>
        { reactor := reactor, evMask := evNull, status := .active }
      exact (addEvent_spec hp (fun _ _ => hin.2) evRead).bind fun r hr => Spec.pure hr.1
  · exact Spec.pure h

lemma waitClose_spec (h : Indexed maxn p) :
    Spec (Inside maxn) (fun r => Indexed maxn r.1) (waitClose k p fd) := by
  rw [waitClose]
  split_ifs with hrange
  · have hin := h.inRange hrange
    refine (entryAt_spec hin trivial : Spec _ (fun _ => True) _).bind fun pe _ => ?_
    split_ifs with hactive
    · exact Spec.pure h
    · exact (delEvent_spec h (fun _ _ => hin.2) _).bind fun r hr =>
        Spec.pure (hr.1.setEntry fd _)
  · exact Spec.pure h

omit [Backend R] in
lemma setReactor_spec (h : Indexed maxn p) (reactor : Option ℕ) :
    Spec (Inside maxn) (fun r => Indexed maxn r.1) (setReactor p fd reactor) := by
  rw [setReactor]
  split_ifs with hrange
  · have hin := h.inRange hrange
    refine (entryAt_spec hin trivial : Spec _ (fun _ => True) _).bind fun pe _ => ?_
    split_ifs with hactive
    · exact Spec.pure h
    · exact (entryAt_spec hin trivial : Spec _ (fun _ => True) _).bind fun _ _ =>
        Spec.pure (h.setEntry fd _)
  · exact Spec.pure h

/-- The poller after a `close_fd` that found room. -/
def afterClose (p : EventPoller R) (fd : ℤ) : EventPoller R :=
  { p with base := { p.base with
    retired := Function.update p.base.retired p.base.retiredSz fd
    retiredSz := p.base.retiredSz + 1 } }

omit [Driver R] [Backend R] in
lemma closeFd_eq (hroom : p.base.retiredSz < p.base.maxFds) (fd : ℤ) :
    p.closeFd fd = .ok (afterClose p fd, 0) := by
  rw [EventPoller.closeFd, FdPollerBase.closeFd, if_pos hroom]
  rfl

omit [Driver R] [Backend R] in
lemma afterClose_retired_self : (afterClose p fd).base.retired p.base.retiredSz = fd :=
  Function.update_self ..

omit [Driver R] [Backend R] in
lemma afterClose_retired_of_lt {i : ℕ} (hi : i < p.base.retiredSz) :
    (afterClose p fd).base.retired i = p.base.retired i :=
  Function.update_of_ne (Nat.ne_of_lt hi) _ _

omit [Backend R] in
lemma closeFd_spec (h : Indexed maxn p) (hroom : p.base.retiredSz < maxn)
    (hint : p.base.retiredSz < 2 ^ 31) (hin : 0 ≤ fd ∧ fd < maxn) :
    Spec (Inside maxn) (fun r => Indexed maxn r.1) (closeFd p fd) := by
  have hidx : i32 p.base.retiredSz = p.base.retiredSz := i32_of_lt hint
  refine Spec.tell ?_ fun r hr => ?_
  · rw [hidx]
    exact ⟨Int.natCast_nonneg _, by exact_mod_cast hroom⟩
  · rw [closeFd_eq (by rw [h.maxFds]; exact hroom)] at hr
    obtain rfl := Except.ok.inj hr
    refine ⟨h.maxFds, h.pending, fun i hi => ?_, ⟨hroom, hint⟩, h.kernel⟩
    rcases Nat.lt_succ_iff_lt_or_eq.mp hi with hlt | rfl
    · rw [afterClose_retired_of_lt hlt]
      exact h.retired i hlt
    · rw [afterClose_retired_self]
      exact hin

/-- **An allowed call** stays inside. -/
lemma perform_spec (h : Indexed maxn p) {c : PublicCall}
    (ha : Allowed R maxn p.base.retiredSz c) :
    Spec (Inside maxn) (fun r => Indexed maxn r.1) (perform malloc k p c) := by
  cases c with
  | addFd fd reactor => exact addFd_spec h reactor
  | setReactor fd reactor => exact setReactor_spec h reactor
  | waitClose fd => exact waitClose_spec h
  | closeFd fd => exact closeFd_spec h ha.1 ha.2.1 ha.2.2
  | addEvent fd flag => exact (addEvent_spec h ha flag).imp fun _ hr => hr.1
  | delEvent fd flag => exact (delEvent_spec h ha flag).imp fun _ hr => hr.1

lemma call_keeps (h : Indexed maxn p) (c : PublicCall) :
    Keeps maxn Prod.fst (call malloc k p c) := by
  have htell : Relies (Meets R maxn) (Inside maxn) (fun _ => Allowed R maxn p.base.retiredSz c)
      (.tell (.call c p.base.retiredSz) (.ok ()) : Accessing Unit) :=
    Relies.tell (fun _ => trivial) fun _ ha _ => ha
  exact htell.bind fun _ ha => Relies.of_spec (perform_spec h ha)

lemma calls_keeps (h : Indexed maxn p) (cs : List PublicCall) :
    Keeps maxn id (calls malloc k p cs) := by
  induction cs generalizing p with
  | nil => exact Relies.pure h
  | cons c cs ih => exact (call_keeps h c).bind fun r hr => ih hr

/-! ### A turn -/

lemma callback_keeps (h : Indexed maxn p) (env : ℕ → List PublicCall) (j : ℕ) (fd : ℤ)
    (write : Bool) : Keeps maxn Prod.fst (callback malloc k env p j fd write) := by
  rw [callback]
  cases (p.base.entry fd).reactor with
  | none => exact Relies.of_spec (Spec.lift nofun)
  | some r => exact (calls_keeps h (env j)).bind fun p' hp' => Relies.pure hp'

lemma callbacks_keeps (h : Indexed maxn p) (env : ℕ → List PublicCall) (j : ℕ) (fd : ℤ)
    (ws : List Bool) : Keeps maxn Prod.fst (callbacks (callback malloc k env) fd p j ws) := by
  induction ws generalizing p j with
  | nil => exact Relies.pure h
  | cons w ws ih => exact (callback_keeps h env j fd w).bind fun r hr => ih hr r.2

/-- **An event** of a descriptor that has an entry. -/
lemma dispatch_keeps (h : Indexed maxn p) (env : ℕ → List PublicCall) (j : ℕ)
    {e : Backend.Event R} (hin : 0 ≤ Backend.eventFd e ∧ Backend.eventFd e < maxn) :
    Keeps maxn Prod.fst (dispatch k (callback malloc k env) p j e) := by
  refine (Relies.of_spec (entryAt_spec hin trivial) : Relies _ _ (fun _ => True) _).bind
    fun pe _ => ?_
  split_ifs with hactive
  · exact (Relies.of_spec (delEvent_spec h (fun _ _ => hin.2) _)).bind fun r hr =>
      Relies.pure hr.1
  · exact callbacks_keeps h env j _ _

lemma dispatchAll_keeps (h : Indexed maxn p) (env : ℕ → List PublicCall) (j : ℕ)
    {es : List (Backend.Event R)}
    (hin : ∀ e ∈ es, 0 ≤ Backend.eventFd e ∧ Backend.eventFd e < maxn) :
    Keeps maxn Prod.fst (dispatchAll k (callback malloc k env) p j es) := by
  induction es generalizing p j with
  | nil => exact Relies.pure h
  | cons e es ih =>
      exact (dispatch_keeps h env j (hin e List.mem_cons_self)).bind fun r hr =>
        ih hr r.2 fun e' he' => hin e' (List.mem_cons_of_mem e he')

lemma doPoll_keeps (h : Indexed maxn p) (env : ℕ → List PublicCall) :
    Keeps maxn id (doPoll malloc k env p) := by
  rw [doPoll]
  split
  · exact Relies.pure h
  · next es hes =>
      have hin : ∀ e ∈ es, 0 ≤ Backend.eventFd e ∧ Backend.eventFd e < maxn :=
        fun e he => h.kernel _ (k.registered hes he)
      exact (dispatchAll_keeps h env 0 hin).bind fun r hr => Relies.pure hr

/-- **The loop over the retired descriptors.** -/
lemma closeRetired_spec {n i : ℕ} (h : Indexed maxn p) (hle : i + n ≤ p.base.retiredSz) :
    Spec (Inside maxn) (fun r => Indexed maxn r.1) (closeRetired k n i p) := by
  induction n generalizing i p with
  | zero => exact Spec.pure h
  | succ n ih =>
      have hi : i < p.base.retiredSz := by omega
      have hslot : Inside maxn (.retired i) :=
        ⟨Int.natCast_nonneg _, by exact_mod_cast Nat.lt_of_lt_of_le hi h.room.1⟩
      have hin := h.retired i hi
      refine (Spec.tell hslot fun _ hfd => (Except.ok.inj hfd).symm :
        Spec _ (fun fd => fd = p.base.retired i) _).bind fun fd hfd => ?_
      subst hfd
      refine (delEvent_spec h (fun _ _ => hin.2) _).bind fun r hr => ?_
      refine (resetFd_spec hr.1).bind fun p₂ hp₂ => ?_
      refine (entryAt_spec hin trivial : Spec _ (fun _ => True) _).bind fun pe _ => ?_
      refine (ih hp₂.1 ?_).bind fun r' hr' => Spec.pure hr'
      rw [hp₂.2, hr.2]
      omega

/-- **The loop along `pending_new_`.** -/
lemma applyPending_spec {fuel : ℕ} {q : Option ℕ} (h : Indexed maxn p) :
    Spec (Inside maxn) (fun r => Indexed maxn r.1) (applyPending k fuel p q) := by
  induction fuel generalizing p q with
  | zero =>
      cases q with
      | none => exact Spec.pure h
      | some a => exact Spec.lift nofun
  | succ fuel ih =>
      cases q with
      | none => exact Spec.pure h
      | some a =>
          have hkey : ∀ e, deref p.base.pendingNew.entries a = .ok e → p.base.InRange e.key := by
            intro e he
            obtain ⟨l, b, hstores, hkeys⟩ := h.pending
            refine hkeys ⟨a, e.key, e.data⟩ ((hstores.mem_iff _).mpr ?_)
            simp [HmapT.contents, Heap.field, deref_eq_ok he]
          refine (Spec.lift hkey).bind fun e he => ?_
          have hin := h.inRange he
          refine (entryAt_spec hin trivial : Spec _ (fun _ => True) _).bind fun _ _ => ?_
          have hp := h.setEntry e.key fun _ =>
            { reactor := e.data, status := .active, evMask := evNull }
          refine (addEvent_spec hp (fun _ _ => hin.2) evRead).bind fun r hr => ?_
          exact (ih hr.1).bind fun r' hr' => Spec.pure hr'

lemma finish_spec (h : Indexed maxn p) :
    Spec (Inside maxn) (fun r => Indexed maxn r.1) (finish k p) := by
  refine (closeRetired_spec h (by omega)).bind fun r hr => ?_
  have hzero : Indexed maxn
      ({ r.1 with base := { r.1.base with retiredSz := 0 } } : EventPoller R) :=
    ⟨hr.maxFds, hr.pending, nofun, ⟨Nat.zero_le _, Nat.zero_le _⟩, hr.kernel⟩
  exact (applyPending_spec hzero).bind fun r' hr' => Spec.pure hr'

/-- **A turn** stays inside. -/
lemma process_keeps (h : Indexed maxn p) (timer : List PublicCall) (env : ℕ → List PublicCall) :
    Keeps maxn id (process malloc k timer env p) := by
  refine (calls_keeps h timer).bind fun p₁ h₁ => ?_
  refine (doPoll_keeps h₁ env).bind fun p₂ h₂ => ?_
  exact (Relies.of_spec (finish_spec h₂)).bind fun r hr => Relies.pure hr

lemma step_keeps (h : Indexed maxn p) (s : Step R) : Keeps maxn id (step malloc p s) := by
  cases s with
  | call k c => exact (call_keeps h c).bind fun r hr => Relies.pure hr
  | process k timer env => exact process_keeps h timer env

/-- **Every run** stays inside. -/
lemma run_keeps (h : Indexed maxn p) (steps : List (Step R)) :
    Keeps maxn id (run malloc p steps) := by
  induction steps generalizing p with
  | nil => exact Relies.pure h
  | cons s steps ih => exact (step_keeps h s).bind fun p' hp' => ih hp'

/-! ### Leaving the tables -/

lemma delEvent_returns (hin : 0 ≤ fd ∧ fd < p.base.maxFds) (flag : ℕ) :
    ∃ w r, (delEvent k p fd flag).result = .ok (p.setWatch fd w, r) := by
  rw [delEvent]
  split_ifs
  · exact ⟨p.watch fd, axRetError, by rw [setWatch_watch]; rfl⟩
  · exact ⟨_, _, if_pos hin⟩

/-- A descriptor that `del_event` faults at has been accessed. -/
lemma delEvent_fault {flag : ℕ} {f : Fault} (h : (delEvent k p fd flag).result = .error f) :
    .entry fd ∈ (delEvent k p fd flag).log := by
  rw [delEvent] at h ⊢
  split_ifs at h ⊢
  exact List.mem_singleton.mpr rfl

omit [Driver R] [Backend R] in
lemma resetFd_frame (q : FdPollerBase) (fd : ℤ) :
    (q.resetFd fd).retired = q.retired ∧ (q.resetFd fd).maxFds = q.maxFds := by
  rw [FdPollerBase.resetFd]
  split_ifs <;> exact ⟨rfl, rfl⟩

/-- **The loop over the retired descriptors** gets to the first one that has no entry. -/
lemma closeRetired_reaches {n i j : ℕ} (hi : i ≤ j) (hj : j < i + n)
    (hin : ∀ l, i ≤ l → l < j → 0 ≤ p.base.retired l ∧ p.base.retired l < p.base.maxFds) :
    .entry (p.base.retired j) ∈ (closeRetired k n i p).log := by
  induction n generalizing i p with
  | zero => omega
  | succ n ih =>
      refine mem_log_bind_right rfl ?_
      rcases Nat.eq_or_lt_of_le hi with rfl | hlt
      · cases hdel : (delEvent k p (p.base.retired i) (evRead ||| evWrite)).result with
        | error f => exact mem_log_bind (delEvent_fault hdel) _
        | ok r =>
            refine mem_log_bind_right hdel ?_
            refine mem_log_bind_right resetFd_result ?_
            exact mem_log_bind (List.mem_singleton.mpr rfl) _
      · have hfd := hin i le_rfl hlt
        obtain ⟨w, r, hdel⟩ := delEvent_returns (k := k) hfd (evRead ||| evWrite)
        obtain ⟨hret, hmax⟩ := resetFd_frame (p.setWatch (p.base.retired i) w).base
          (p.base.retired i)
        refine mem_log_bind_right hdel ?_
        refine mem_log_bind_right resetFd_result ?_
        refine mem_log_bind_right (entryAt_result ?_) ?_
        · rw [hmax]
          exact hfd
        · refine mem_log_bind ?_ _
          have hrest := ih (p := { p.setWatch (p.base.retired i) w with
            base := (p.setWatch (p.base.retired i) w).base.resetFd (p.base.retired i) })
            (i := i + 1) hlt (by omega) ?_
          · rw [hret] at hrest
            exact hrest
          · intro l hl hlj
            rw [hret, hmax]
            exact hin l (by omega) hlj

/-- A turn without events and without calls. -/
lemma process_quiet_spec (h : Indexed maxn p) :
    Spec (Inside maxn) (Indexed maxn) (process malloc k.quiet [] (fun _ => []) p) := by
  refine (Spec.pure h).bind fun p₁ h₁ => ?_
  refine (Spec.pure h₁ : Spec _ _ (doPoll malloc k.quiet (fun _ => []) p₁)).bind fun p₂ h₂ => ?_
  exact (finish_spec h₂).bind fun r hr => Spec.pure hr

/-- The same turn goes over the retired descriptors. -/
lemma closeRetired_in_process {w : Noted}
    (h : w ∈ (closeRetired k.quiet p.base.retiredSz 0 p).log) :
    w ∈ (process malloc k.quiet [] (fun _ => []) p).log := by
  refine mem_log_bind_right rfl (mem_log_bind_right rfl ?_)
  exact mem_log_bind (mem_log_bind h _) _

omit [Backend R] in
lemma Indexed.ofNew {os : Libc} {junk : ℤ → PollerEntry} {timetick : ℤ} (hos : os.Total)
    (hnew : EventPoller.new os junk maxn timetick = .ok p) : Indexed maxn p := by
  obtain ⟨base, hbase, hnew⟩ := bind_eq_ok hnew
  obtain rfl := Except.ok.inj hnew
  have hpending := (FdPollerBase.Turnable.ofNew hos hbase).pending
  obtain ⟨-, -, hbase⟩ := bind_eq_ok hbase
  obtain ⟨m, -, hbase⟩ := bind_eq_ok hbase
  obtain rfl := Except.ok.inj hbase
  exact ⟨rfl, hpending, nofun, ⟨Nat.zero_le _, Nat.zero_le _⟩, fun fd hreg => absurd rfl hreg⟩

/-- A slot of `retired_` that is inside. -/
lemma retiredSz_of_inside {sz : ℕ} (hsz : sz ≤ 2 ^ 31) (h : Inside maxn (.retired (i32 sz))) :
    sz < 2 ^ 31 ∧ sz < maxn := by
  obtain ⟨hpos, hlt⟩ := h
  have hint : sz < 2 ^ 31 := by
    by_contra hge
    obtain rfl : sz = 2 ^ 31 := Nat.le_antisymm hsz (not_lt.mp hge)
    exact absurd hpos (by decide)
  rw [i32_of_lt hint] at hlt
  exact ⟨hint, by exact_mod_cast hlt⟩

/-- **When a call keeps a poller inside**: the call, and a turn of the loop after it, access the
tables inside if and only if the call is allowed. -/
lemma Indexed.allowed_iff (h : Indexed maxn p) (c : PublicCall) :
    (∀ w ∈ (run malloc p [.call k c, .process k.quiet [] fun _ => []]).log, Inside maxn w) ↔
      Allowed R maxn p.base.retiredSz c := by
  constructor
  · intro hall
    have hcall : ∀ w ∈ (perform malloc k p c).log, Inside maxn w := by
      intro w hw
      have hmem : w ∈ (call malloc k p c).log := by
        rw [call]
        exact mem_log_bind_right rfl hw
      exact hall w (mem_log_bind (mem_log_bind hmem _) _)
    cases c with
    | addFd fd reactor => trivial
    | setReactor fd reactor => trivial
    | waitClose fd => trivial
    | addEvent fd flag =>
        intro hpos hle
        have hmem : .entry fd ∈ (addEvent k p fd flag).log := by
          rw [addEvent, h.maxFds, if_neg (by omega)]
          exact List.mem_singleton.mpr rfl
        exact (hcall _ hmem).2
    | delEvent fd flag =>
        intro hpos hle
        have hmem : .entry fd ∈ (delEvent k p fd flag).log := by
          rw [delEvent, h.maxFds, if_neg (by omega)]
          exact List.mem_singleton.mpr rfl
        exact (hcall _ hmem).2
    | closeFd fd =>
        have hslot : Inside maxn (.retired (i32 p.base.retiredSz)) :=
          hcall _ (List.mem_singleton.mpr rfl)
        obtain ⟨hsz, hidx⟩ := retiredSz_of_inside h.room.2 hslot
        have hok := closeFd_eq (p := p) (by rw [h.maxFds]; exact hidx) fd
        -- the turn after the call goes over what was retired before, and then gets to `fd`
        have hreach : .entry ((afterClose p fd).base.retired p.base.retiredSz) ∈
            (closeRetired k.quiet (afterClose p fd).base.retiredSz 0 (afterClose p fd)).log := by
          refine closeRetired_reaches (Nat.zero_le _) ?_ fun l _ hl => ?_
          · rw [Nat.zero_add]
            exact Nat.lt_succ_self _
          · rw [afterClose_retired_of_lt hl]
            exact h.maxFds ▸ h.retired l hl
        rw [afterClose_retired_self] at hreach
        have hstep : (step malloc p (.call k (.closeFd fd))).result = .ok (afterClose p fd) := by
          rw [step, call, result_bind, result_bind]
          show ((p.closeFd fd) >>= _) = _
          rw [hok]
          rfl
        have hentry : Inside maxn (.entry fd) := by
          refine hall _ (mem_log_bind_right hstep ?_)
          exact mem_log_bind (closeRetired_in_process hreach) _
        exact ⟨hidx, hsz, hentry⟩
  · intro ha
    have hcall : Spec (Inside maxn) (Indexed maxn) (step malloc p (.call k c)) := by
      refine Spec.bind (Q := fun r => Indexed maxn r.1) ?_ fun r hr => Spec.pure hr
      refine (Spec.tell trivial fun _ _ => trivial : Spec _ (fun _ => True) _).bind fun _ _ => ?_
      exact perform_spec h ha
    have hrun : Spec (Inside maxn) (Indexed maxn)
        (run malloc p [.call k c, .process k.quiet [] fun _ => []]) :=
      hcall.bind fun p₁ h₁ => (process_quiet_spec h₁).bind fun p₂ h₂ => Spec.pure h₂
    exact hrun.log

end Specs

/-- **A poller indexes inside its tables.**  For either poller, every `maxn`, and every run of calls
and turns of the loop, also one that ends in a fault: if the calls made, by the program or by the
callbacks, are allowed, all accesses to `entry_` and `retired_` are inside.  And whenever the run
has returned, a next call and the turn of the loop after it stay inside if and only if the call is
allowed. -/
theorem indexes_inside {malloc : Allocator (HmapEntry ℤ ℕ)} {os : Libc} {junk : ℤ → PollerEntry}
    {maxn : ℕ} {timetick : ℤ} {p : EventPoller R} (hos : os.Total)
    (hnew : EventPoller.new os junk maxn timetick = .ok p) (steps : List (Step R))
    (hallowed : ∀ w ∈ (run malloc p steps).log, Meets R maxn w) :
    (∀ w ∈ (run malloc p steps).log, Inside maxn w) ∧
    ∀ p', (run malloc p steps).result = .ok p' → ∀ (k : Kernel R) (c : PublicCall),
      (∀ w ∈ (run malloc p' [.call k c, .process k.quiet [] fun _ => []]).log, Inside maxn w) ↔
        Allowed R maxn p'.base.retiredSz c := by
  have hrun := run_keeps (Indexed.ofNew hos hnew) steps hallowed
  exact ⟨hrun.log, fun p' hp' k c => (hrun.result p' hp').allowed_iff c⟩

/-- An operating system that refuses requests only for what it has registered, without events. -/
def openKernel (R : Type) [Driver R] [Backend R] : Kernel R where
  add _ := Driver.add
  del _ := Driver.del
  wait _ := none
  registered h := absurd h nofun

/-- A poller of four descriptors. -/
def fourPoller (R : Type) [Driver R] : Except Fault (EventPoller R) :=
  EventPoller.new zeroLibc (fun _ => ⟨0, .empty, none⟩) 4 100

/-- A descriptor that is added, watched, retired and reset. -/
theorem indexes_inside_retired : ∃ p : EventPoller EpollPoller.Reg,
    fourPoller EpollPoller.Reg = .ok p ∧
    ∀ w ∈ (run (Allocator.above _ 1) p [.call (openKernel _) (.addFd 2 (some 7)),
      .call (openKernel _) (.addEvent 2 evWrite), .call (openKernel _) (.closeFd 2),
      .process (openKernel _) [] fun _ => []]).log, Inside 4 w := by
  have hnew : fourPoller EpollPoller.Reg = .ok _ := rfl
  refine ⟨_, hnew, (indexes_inside zeroLibc_total hnew _ ?_).1⟩
  intro w hw
  have hlog : w ∈ [Noted.call (.addFd 2 (some 7)) 0, .entry 2, .entry 2,
    .call (.addEvent 2 evWrite) 0, .entry 2, .call (.closeFd 2) 0, .retired 0, .retired 0,
    .entry 2, .entry 2, .entry 2] := hw
  simp only [List.mem_cons, List.not_mem_nil, or_false] at hlog
  rcases hlog with rfl | rfl | rfl | rfl | rfl | rfl | rfl | rfl | rfl | rfl | rfl
  all_goals simp [Meets, Allowed]

/-- **One behind the table**: `add_event(max_fds_)` of both pollers and `del_event(max_fds_)` of
`KqueuePoller` access `entry_[max_fds_]`.  A descriptor without an entry that was handed to
`close_fd` is looked up by the next turn. -/
theorem index_outside :
    (∃ p : EventPoller EpollPoller.Reg, fourPoller EpollPoller.Reg = .ok p ∧
      .entry 4 ∈ (run (Allocator.above _ 1) p [.call (openKernel _) (.addEvent 4 evRead)]).log ∧
      .entry 100 ∈ (run (Allocator.above _ 1) p [.call (openKernel _) (.closeFd 100),
        .process (openKernel _) [] fun _ => []]).log) ∧
    (∃ p : EventPoller KqueuePoller.Reg, fourPoller KqueuePoller.Reg = .ok p ∧
      .entry 4 ∈ (run (Allocator.above _ 1) p [.call (openKernel _) (.addEvent 4 evRead)]).log ∧
      .entry 4 ∈ (run (Allocator.above _ 1) p [.call (openKernel _) (.delEvent 4 evRead)]).log) ∧
    ¬ Inside 4 (.entry 4) ∧ ¬ Inside 4 (.entry 100) := by
  refine ⟨⟨_, rfl, ?_, ?_⟩, ⟨_, rfl, ?_, ?_⟩, by simp [Inside], by simp [Inside]⟩
  · exact (by decide : Noted.entry 4 ∈ [Noted.call (.addEvent 4 evRead) 0, .entry 4])
  · exact (by decide :
      Noted.entry 100 ∈ [Noted.call (.closeFd 100) 0, .retired 0, .retired 0, .entry 100])
  · exact (by decide : Noted.entry 4 ∈ [Noted.call (.addEvent 4 evRead) 0, .entry 4])
  · exact (by decide : Noted.entry 4 ∈ [Noted.call (.delEvent 4 evRead) 0, .entry 4])

end Logged

end EventPoller

end Axon
