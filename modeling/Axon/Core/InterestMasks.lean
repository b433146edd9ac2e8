import Axon.Core.EventPoller

/-!
# The masks and the kernel

`ev_mask` is what the poller believes the kernel watches for a descriptor.  The two pollers reach
the kernel through different interfaces: a `kqueue` takes read and write filters one by one, while
an `epoll` has one registration for a descriptor, which `EPOLL_CTL_ADD` does not extend and
`EPOLL_CTL_DEL` removes as a whole.

* **`Registration`** : the calls that change what is watched; `EventPoller.register` makes one.
* **`Op.effect`** : what a call does to its descriptor, by `EventPoller.register_spec`.
* **`EventPoller.MasksTrue`** : for every descriptor, the masks of both pollers are what their
  kernels watch, and the same.
* **`Op.Fits`** : the condition on a call, in terms of the mask and the status it finds.
* **`EventPoller.masks_true_iff`** : in every run of calls that fit, the masks are true; and the
  next call keeps them true, and adds or removes what it was asked to, if and only if it fits.
-/

namespace Axon

open Library

/-- What the program calls to change the events watched. -/
inductive Registration where
  | addFd (fd : ℤ) (reactor : Option ℕ)
  | addEvent (fd : ℤ) (flag : ℕ)
  | delEvent (fd : ℤ) (flag : ℕ)
  | waitClose (fd : ℤ)

/-- The same without the descriptor. -/
inductive Op where
  | addFd
  | addEvent (flag : ℕ)
  | delEvent (flag : ℕ)
  | waitClose

namespace Registration

/-- The descriptor a call is about. -/
def fd : Registration → ℤ
  | .addFd fd _ => fd
  | .addEvent fd _ => fd
  | .delEvent fd _ => fd
  | .waitClose fd => fd

/-- What is done to it. -/
def op : Registration → Op
  | .addFd _ _ => .addFd
  | .addEvent _ flag => .addEvent flag
  | .delEvent _ flag => .delEvent flag
  | .waitClose _ => .waitClose

end Registration

namespace EventPoller

variable {R : Type}

/-- The status of a descriptor, and what the poller has for it. -/
def state (p : EventPoller R) (fd : ℤ) : FdStatus × Watch R :=
  ((p.base.entry fd).status, p.watch fd)

/-- Makes a call; `malloc` chooses the address of an entry of `pending_new_`. -/
def register [Driver R] (malloc : Allocator (HmapEntry ℤ ℕ)) (p : EventPoller R) :
    Registration → Except Fault (EventPoller R × ℤ)
  | .addFd fd reactor => p.addFd (malloc.new p.base.pendingNew.entries) fd reactor
  | .addEvent fd flag => Driver.addEvent p fd flag
  | .delEvent fd flag => Driver.delEvent p fd flag
  | .waitClose fd => p.waitClose fd

end EventPoller

/-- **What a call does** to the status of its descriptor and to what the poller has for it. -/
def Op.effect {R : Type} [Driver R] : Op → FdStatus × Watch R → FdStatus × Watch R
  | .addFd, s =>
      if s.1 = .empty then (.active, (Driver.add evRead ⟨evNull, s.2.reg⟩).1) else s
  | .addEvent flag, s => (s.1, (Driver.add flag s.2).1)
  | .delEvent flag, s => (s.1, (Driver.del flag s.2).1)
  | .waitClose, s =>
      if s.1 = .active then (.waitClose, (Driver.del (evRead ||| evWrite) s.2).1) else s

/-! ## Calls touch one descriptor -/

namespace EventPoller

section Local

variable {R : Type} {p p' : EventPoller R} {fd : ℤ}

lemma state_setWatch_self (w : Watch R) : (p.setWatch fd w).state fd = ((p.state fd).1, w) := by
  simp [state, watch, setWatch, FdPollerBase.setEntry]

lemma state_setWatch_of_ne {fd' : ℤ} (h : fd' ≠ fd) (w : Watch R) :
    (p.setWatch fd w).state fd' = p.state fd' := by
  simp [state, watch, setWatch, FdPollerBase.setEntry, Function.update_of_ne h]

lemma state_setEntry_self (f : PollerEntry → PollerEntry) :
    (p.setEntry fd f).state fd =
      ((f (p.base.entry fd)).status, ⟨(f (p.base.entry fd)).evMask, p.kernel fd⟩) := by
  simp [state, watch, setEntry, FdPollerBase.setEntry]

lemma state_setEntry_of_ne {fd' : ℤ} (h : fd' ≠ fd) (f : PollerEntry → PollerEntry) :
    (p.setEntry fd f).state fd' = p.state fd' := by
  simp [state, watch, setEntry, FdPollerBase.setEntry, Function.update_of_ne h]

lemma onEntry_eq (h : p.base.InRange fd) (f : Watch R → Watch R × ℤ) :
    p.onEntry fd f = .ok (p.setWatch fd (f (p.watch fd)).1, (f (p.watch fd)).2) :=
  if_pos h.lt_maxFds

/-- Only what the poller has for one descriptor has changed, to `s`; and `pending_new_` is sound. -/
structure Touched (p p' : EventPoller R) (fd : ℤ) (s : FdStatus × Watch R) : Prop where
  pending : ∃ l b, HmapT.Stores p'.base.pendingNew l b
  maxFds : p'.base.maxFds = p.base.maxFds
  self : p'.state fd = s
  other : ∀ fd' ≠ fd, p'.state fd' = p.state fd'

/-- **Every call** returns, and touches its descriptor only. -/
lemma register_spec [Driver R] (malloc : Allocator (HmapEntry ℤ ℕ)) {c : Registration}
    (hp : ∃ l b, HmapT.Stores p.base.pendingNew l b) (hrange : p.base.InRange c.fd) :
    ∃ p' r, p.register malloc c = .ok (p', r) ∧
      Touched p p' c.fd (c.op.effect (p.state c.fd)) := by
  cases c with
  | addFd fd reactor =>
      replace hrange : p.base.InRange fd := hrange
      rw [register, addFd, if_neg (not_not.mpr hrange)]
      by_cases hempty : (p.base.entry fd).status = .empty
      · have hrange' : (p.setEntry fd fun _ =>
            { reactor := reactor, evMask := evNull, status := .active }).base.InRange fd := hrange
        rw [if_neg (not_not.mpr hempty)]
        dsimp only
        rw [Driver.addEvent_eq _ hrange', onEntry_eq hrange']
        refine ⟨_, _, rfl, hp, rfl, ?_, ?_⟩
        · refine (state_setWatch_self _).trans ?_
          rw [state_setEntry_self]
          simp [Registration.op, Registration.fd, Op.effect, state, watch, setEntry,
            FdPollerBase.setEntry, hempty]
        · intro fd' hne
          exact (state_setWatch_of_ne hne _).trans (state_setEntry_of_ne hne _)
      · obtain ⟨l, b, hstores⟩ := hp
        obtain ⟨m, b', hins, -, hstores'⟩ := hstores.insert (malloc.fresh _) fd reactor
        rw [if_pos hempty, hins]
        refine ⟨_, _, rfl, ⟨_, b', hstores'⟩, rfl, ?_, fun _ _ => rfl⟩
        exact (if_neg hempty).symm
  | addEvent fd flag =>
      replace hrange : p.base.InRange fd := hrange
      rw [register, Driver.addEvent_eq _ hrange, onEntry_eq hrange]
      exact ⟨_, _, rfl, hp, rfl, state_setWatch_self _, fun fd' hne => state_setWatch_of_ne hne _⟩
  | delEvent fd flag =>
      replace hrange : p.base.InRange fd := hrange
      rw [register, Driver.delEvent_eq _ hrange, onEntry_eq hrange]
      exact ⟨_, _, rfl, hp, rfl, state_setWatch_self _, fun fd' hne => state_setWatch_of_ne hne _⟩
  | waitClose fd =>
      replace hrange : p.base.InRange fd := hrange
      rw [register, waitClose, if_neg (not_not.mpr hrange)]
      by_cases hactive : (p.base.entry fd).status = .active
      · rw [if_neg (not_not.mpr hactive), Driver.delEvent_eq _ hrange, onEntry_eq hrange]
        refine ⟨_, _, rfl, hp, rfl, ?_, ?_⟩
        · refine (state_setEntry_self _).trans ?_
          simp [Registration.op, Registration.fd, Op.effect, state, setWatch,
            FdPollerBase.setEntry, hactive]
        · intro fd' hne
          exact (state_setEntry_of_ne hne _).trans (state_setWatch_of_ne hne _)
      · rw [if_pos hactive]
        exact ⟨p, axRetError, rfl, hp, rfl, (if_neg hactive).symm, fun _ _ => rfl⟩

end Local

end EventPoller

/-! ## One descriptor -/

lemma Interest.mask_and_read (i : Interest) : i.mask &&& evRead = 0 ↔ i.read = false := by
  rcases i with ⟨_ | _, _ | _⟩ <;> decide

lemma Interest.mask_and_write (i : Interest) : i.mask &&& evWrite = 0 ↔ i.write = false := by
  rcases i with ⟨_ | _, _ | _⟩ <;> decide

lemma Interest.ofFlag_mask (i : Interest) : Interest.ofFlag i.mask = i := by
  rcases i with ⟨_ | _, _ | _⟩ <;> decide

/-- Only the bits `EV_READ` and `EV_WRITE` of a parameter are looked at. -/
lemma Interest.ofFlag_and (flag : ℕ) :
    ((Interest.ofFlag flag).mask &&& evRead = 0 ↔ flag &&& evRead = 0) ∧
      ((Interest.ofFlag flag).mask &&& evWrite = 0 ↔ flag &&& evWrite = 0) := by
  rw [mask_and_read, mask_and_write]
  simp [ofFlag]

lemma EpollPoller.both_congr {one one' : ℕ → Watch EpollPoller.Reg → Watch EpollPoller.Reg × Bool}
    (hr : one evRead = one' evRead) (hw : one evWrite = one' evWrite) : both one = both one' := by
  funext w
  rw [both, both, hr, hw]

lemma EpollPoller.add_ofFlag (flag : ℕ) (w : Watch EpollPoller.Reg) :
    Driver.add flag w = Driver.add (Interest.ofFlag flag).mask w := by
  obtain ⟨hr, hw⟩ := Interest.ofFlag_and flag
  refine congrFun (both_congr (funext fun w => ?_) (funext fun w => ?_)) w
  · exact if_congr hr.symm rfl rfl
  · exact if_congr hw.symm rfl rfl

lemma EpollPoller.del_ofFlag (flag : ℕ) (w : Watch EpollPoller.Reg) :
    Driver.del flag w = Driver.del (Interest.ofFlag flag).mask w := by
  obtain ⟨hr, hw⟩ := Interest.ofFlag_and flag
  refine congrFun (both_congr (funext fun w => ?_) (funext fun w => ?_)) w
  · exact if_congr hr.symm rfl rfl
  · exact if_congr hw.symm rfl rfl

lemma KqueuePoller.add_ofFlag (flag : ℕ) (w : Watch KqueuePoller.Reg) :
    Driver.add flag w = Driver.add (Interest.ofFlag flag).mask w := by
  obtain ⟨hr, hw⟩ := Interest.ofFlag_and flag
  simp only [Driver.add, add, hr, hw]

lemma KqueuePoller.del_ofFlag (flag : ℕ) (w : Watch KqueuePoller.Reg) :
    Driver.del flag w = Driver.del (Interest.ofFlag flag).mask w := by
  obtain ⟨hr, hw⟩ := Interest.ofFlag_and flag
  simp only [Driver.del, del, hr, hw]

/-- What a poller with `epoll` has for a descriptor of which it watches `i`. -/
def EpollPoller.watching (i : Interest) : Watch EpollPoller.Reg :=
  ⟨i.mask, if i = .nothing then none else some i⟩

/-- What a poller with `kqueue` has for a descriptor of which it watches `i`. -/
def KqueuePoller.watching (i : Interest) : Watch KqueuePoller.Reg := ⟨i.mask, i⟩

/-- **The mask is true**: it is what the kernel watches. -/
def Watch.MaskTrue {R : Type} [Driver R] (w : Watch R) : Prop :=
  w.evMask = (Driver.watched w.reg).mask

instance {R : Type} [Driver R] (w : Watch R) : Decidable w.MaskTrue :=
  inferInstanceAs (Decidable (w.evMask = (Driver.watched w.reg).mask))

/-- **The masks are true and the same.** -/
def SameTrue (e : Watch EpollPoller.Reg) (q : Watch KqueuePoller.Reg) : Prop :=
  e.MaskTrue ∧ q.MaskTrue ∧ e.evMask = q.evMask ∧ Driver.watched e.reg = Driver.watched q.reg

instance (e : Watch EpollPoller.Reg) (q : Watch KqueuePoller.Reg) : Decidable (SameTrue e q) :=
  inferInstanceAs (Decidable (e.MaskTrue ∧ q.MaskTrue ∧ e.evMask = q.evMask ∧
    Driver.watched e.reg = Driver.watched q.reg))

namespace Op

/-- **A call is right** about a descriptor of which `i` was watched: it keeps the masks true and the
same, `add_event` adds exactly what it is asked to, and `del_event` removes exactly that. -/
def Right (i : Interest) (e : Watch EpollPoller.Reg) (q : Watch KqueuePoller.Reg) : Op → Prop
  | .addEvent flag => SameTrue e q ∧ e.evMask = (i.union (.ofFlag flag)).mask
  | .delEvent flag => SameTrue e q ∧ e.evMask = (i.diff (.ofFlag flag)).mask
  | _ => SameTrue e q

/-- **The condition** on a call about a descriptor with this status of which `i` is watched:
`add_fd` finds nothing watched in an empty entry; `add_event` is asked for what is watched already,
or for a single event where nothing is; `del_event` is asked for nothing, or nothing is watched, or
the first event it is asked for is the one watched; and `wait_close` does not find an active
descriptor that is watched for writing only. -/
def Fits (i : Interest) (s : FdStatus) : Op → Prop
  | .addFd => s = .empty → i = .nothing
  | .addEvent flag => i.union (.ofFlag flag) = i ∨
      i = .nothing ∧ Interest.ofFlag flag ≠ ⟨true, true⟩
  | .delEvent flag => i = .nothing ∨ Interest.ofFlag flag = .nothing ∨
      i = ⟨true, false⟩ ∧ (Interest.ofFlag flag).read = true ∨
      i = ⟨false, true⟩ ∧ Interest.ofFlag flag = ⟨false, true⟩
  | .waitClose => s = .active → i ≠ ⟨false, true⟩

/-- What is watched after a call that fits. -/
def next (i : Interest) (s : FdStatus) : Op → Interest
  | .addFd => if s = .empty then ⟨true, false⟩ else i
  | .addEvent flag => i.union (.ofFlag flag)
  | .delEvent flag => i.diff (.ofFlag flag)
  | .waitClose => if s = .active then .nothing else i

/-- **A call is right if and only if it fits**, where the masks were true and the same. -/
lemma right_iff {i : Interest} (hi : i ≠ ⟨true, true⟩) (s : FdStatus) (o : Op) :
    o.Right i (o.effect (s, EpollPoller.watching i)).2 (o.effect (s, KqueuePoller.watching i)).2 ↔
      o.Fits i s := by
  cases o with
  | addFd =>
      simp only [Right, Fits]
      rcases i with ⟨_ | _, _ | _⟩ <;> cases s <;> decide
  | addEvent flag =>
      simp only [Right, Fits, effect]
      rw [EpollPoller.add_ofFlag, KqueuePoller.add_ofFlag]
      generalize Interest.ofFlag flag = f
      rcases i with ⟨_ | _, _ | _⟩ <;> rcases f with ⟨_ | _, _ | _⟩ <;> decide
  | delEvent flag =>
      simp only [Right, Fits, effect]
      rw [EpollPoller.del_ofFlag, KqueuePoller.del_ofFlag]
      generalize Interest.ofFlag flag = f
      rcases i with ⟨_ | _, _ | _⟩ <;> rcases f with ⟨_ | _, _ | _⟩ <;> decide
  | waitClose =>
      simp only [Right, Fits]
      rcases i with ⟨_ | _, _ | _⟩ <;> cases s <;> first | decide | exact absurd rfl hi

/-- The status a call leaves behind. -/
def nextStatus (s : FdStatus) : Op → FdStatus
  | .addFd => if s = .empty then .active else s
  | .waitClose => if s = .active then .waitClose else s
  | _ => s

/-- **A call that fits** leaves both pollers watching the same again, and never both events. -/
lemma Fits.effect {i : Interest} {s : FdStatus} {o : Op} (h : o.Fits i s) (hi : i ≠ ⟨true, true⟩) :
    o.effect (s, EpollPoller.watching i) = (o.nextStatus s, EpollPoller.watching (o.next i s)) ∧
      o.effect (s, KqueuePoller.watching i) =
        (o.nextStatus s, KqueuePoller.watching (o.next i s)) ∧ o.next i s ≠ ⟨true, true⟩ := by
  cases o with
  | addFd =>
      simp only [Fits] at h
      rcases i with ⟨_ | _, _ | _⟩ <;> cases s <;>
        first | decide | exact absurd rfl hi | exact absurd (h rfl) (by decide)
  | addEvent flag =>
      simp only [Fits] at h
      simp only [Op.effect, next, nextStatus]
      rw [EpollPoller.add_ofFlag, KqueuePoller.add_ofFlag]
      generalize Interest.ofFlag flag = f at h
      rcases i with ⟨_ | _, _ | _⟩ <;> rcases f with ⟨_ | _, _ | _⟩ <;> cases s <;>
        first | decide | exact absurd rfl hi | exact absurd h (by decide)
  | delEvent flag =>
      simp only [Fits] at h
      simp only [Op.effect, next, nextStatus]
      rw [EpollPoller.del_ofFlag, KqueuePoller.del_ofFlag]
      generalize Interest.ofFlag flag = f at h
      rcases i with ⟨_ | _, _ | _⟩ <;> rcases f with ⟨_ | _, _ | _⟩ <;> cases s <;>
        first | decide | exact absurd rfl hi | exact absurd h (by decide)
  | waitClose =>
      simp only [Fits] at h
      rcases i with ⟨_ | _, _ | _⟩ <;> cases s <;>
        first | decide | exact absurd rfl hi | exact absurd rfl (h rfl)

end Op

/-! ## Runs -/

namespace EventPoller

/-- **The masks are true** for every descriptor in range, and the same for both pollers. -/
def MasksTrue (E : EventPoller EpollPoller.Reg) (Q : EventPoller KqueuePoller.Reg) : Prop :=
  ∀ fd, E.base.InRange fd → SameTrue (E.watch fd) (Q.watch fd)

/-- The condition on a call, with what the poller believes is watched. -/
def FitsAt (E : EventPoller EpollPoller.Reg) (c : Registration) : Prop :=
  c.op.Fits (.ofFlag (E.base.entry c.fd).evMask) (E.base.entry c.fd).status

/-- **The same calls to both pollers**, on descriptors in range.  `P` is the condition on a call in
the state it finds. -/
inductive Twins (P : EventPoller EpollPoller.Reg → Registration → Prop) (maxn : ℕ) :
    EventPoller EpollPoller.Reg → EventPoller KqueuePoller.Reg → Prop
  | new {os os' : Libc} {junk junk' : ℤ → PollerEntry} {timetick timetick' : ℤ}
      {E : EventPoller EpollPoller.Reg} {Q : EventPoller KqueuePoller.Reg}
      (hos : os.Total) (hos' : os'.Total) (hE : EventPoller.new os junk maxn timetick = .ok E)
      (hQ : EventPoller.new os' junk' maxn timetick' = .ok Q) : Twins P maxn E Q
  | call {E E' : EventPoller EpollPoller.Reg} {Q Q' : EventPoller KqueuePoller.Reg}
      {malloc malloc' : Allocator (HmapEntry ℤ ℕ)} {c : Registration} {r r' : ℤ}
      (hrun : Twins P maxn E Q) (hrange : E.base.InRange c.fd) (hP : P E c)
      (hE : E.register malloc c = .ok (E', r)) (hQ : Q.register malloc' c = .ok (Q', r')) :
      Twins P maxn E' Q'

/-- What holds in every state of a run of calls that fit. -/
structure Paired (E : EventPoller EpollPoller.Reg) (Q : EventPoller KqueuePoller.Reg) : Prop where
  pending : ∃ l b, HmapT.Stores E.base.pendingNew l b
  pending' : ∃ l b, HmapT.Stores Q.base.pendingNew l b
  maxFds : Q.base.maxFds = E.base.maxFds
  state : ∀ fd, E.base.InRange fd → ∃ s i, i ≠ ⟨true, true⟩ ∧
    E.state fd = (s, EpollPoller.watching i) ∧ Q.state fd = (s, KqueuePoller.watching i)

/-- **A call is right**: all masks are true and the same after it, and it has added or removed
exactly what it was asked to. -/
def RightAt (E : EventPoller EpollPoller.Reg) (c : Registration)
    (E' : EventPoller EpollPoller.Reg) (Q' : EventPoller KqueuePoller.Reg) : Prop :=
  c.op.Right (.ofFlag (E.base.entry c.fd).evMask) (E'.watch c.fd) (Q'.watch c.fd) ∧
    MasksTrue E' Q'

section Pairs

variable {E E' : EventPoller EpollPoller.Reg} {Q Q' : EventPoller KqueuePoller.Reg}

lemma new_spec {R : Type} [Driver R] {os : Libc} {junk : ℤ → PollerEntry} {maxn : ℕ} {timetick : ℤ}
    {p : EventPoller R} (hos : os.Total) (h : EventPoller.new os junk maxn timetick = .ok p) :
    (∃ l b, HmapT.Stores p.base.pendingNew l b) ∧ p.base.maxFds = maxn ∧
      ∀ fd, p.base.InRange fd → p.state fd = (.empty, ⟨evNull, Driver.idle⟩) := by
  obtain ⟨base, hbase, h⟩ := bind_eq_ok h
  obtain rfl := Except.ok.inj h
  obtain ⟨l, b, hstores, -⟩ := (FdPollerBase.Turnable.ofNew hos hbase).pending
  refine ⟨⟨l, b, hstores⟩, ?_⟩
  obtain ⟨-, -, hbase⟩ := bind_eq_ok hbase
  obtain ⟨m, -, hbase⟩ := bind_eq_ok hbase
  obtain rfl := Except.ok.inj hbase
  refine ⟨rfl, ?_⟩
  intro fd hrange
  have hentry : 0 ≤ fd ∧ fd < i32 maxn := hrange
  simp [state, watch, hentry]

lemma Paired.new {os os' : Libc} {junk junk' : ℤ → PollerEntry} {maxn : ℕ} {timetick timetick' : ℤ}
    (hos : os.Total) (hos' : os'.Total) (hE : EventPoller.new os junk maxn timetick = .ok E)
    (hQ : EventPoller.new os' junk' maxn timetick' = .ok Q) : Paired E Q := by
  obtain ⟨hpend, hmax, hstate⟩ := new_spec hos hE
  obtain ⟨hpend', hmax', hstate'⟩ := new_spec hos' hQ
  refine ⟨hpend, hpend', hmax'.trans hmax.symm, ?_⟩
  intro fd hrange
  have hrange' : Q.base.InRange fd := by
    rw [FdPollerBase.InRange, hmax', ← hmax]
    exact hrange
  exact ⟨.empty, .nothing, by decide, hstate fd hrange, hstate' fd hrange'⟩

lemma Paired.masksTrue (h : Paired E Q) : MasksTrue E Q := by
  intro fd hrange
  obtain ⟨s, i, -, hE, hQ⟩ := h.state fd hrange
  rw [show E.watch fd = _ from (Prod.mk.inj hE).2, show Q.watch fd = _ from (Prod.mk.inj hQ).2]
  rcases i with ⟨_ | _, _ | _⟩ <;> decide

/-- **One call** to both pollers: it returns, keeps the pair if it fits, and is right if and only if
it does. -/
lemma Paired.call (h : Paired E Q) (malloc malloc' : Allocator (HmapEntry ℤ ℕ)) {c : Registration}
    (hrange : E.base.InRange c.fd) :
    ∃ E' r Q' r', E.register malloc c = .ok (E', r) ∧ Q.register malloc' c = .ok (Q', r') ∧
      (E.FitsAt c → Paired E' Q') ∧ (RightAt E c E' Q' ↔ E.FitsAt c) := by
  obtain ⟨s, i, hi, hE, hQ⟩ := h.state c.fd hrange
  have hrange' : Q.base.InRange c.fd := by
    rw [FdPollerBase.InRange, h.maxFds]
    exact hrange
  obtain ⟨E', r, hregE, htE⟩ := E.register_spec malloc h.pending hrange
  obtain ⟨Q', r', hregQ, htQ⟩ := Q.register_spec malloc' h.pending' hrange'
  have hself := hE ▸ htE.self
  have hself' := hQ ▸ htQ.self
  have hwatch : E'.watch c.fd = (c.op.effect (s, EpollPoller.watching i)).2 := congrArg (·.2) hself
  have hwatch' : Q'.watch c.fd = (c.op.effect (s, KqueuePoller.watching i)).2 :=
    congrArg (·.2) hself'
  have hmask : Interest.ofFlag (E.base.entry c.fd).evMask = i := by
    rw [show (E.base.entry c.fd).evMask = i.mask from congrArg (·.2.evMask) hE,
      Interest.ofFlag_mask]
  have hfits : E.FitsAt c ↔ c.op.Fits i s := by
    rw [FitsAt, hmask, show (E.base.entry c.fd).status = s from congrArg (·.1) hE]
  have hpaired : E.FitsAt c → Paired E' Q' := by
    intro hfit
    obtain ⟨heff, heff', hnext⟩ := (hfits.mp hfit).effect hi
    refine ⟨htE.pending, htQ.pending, ?_, ?_⟩
    · rw [htE.maxFds, htQ.maxFds, h.maxFds]
    · intro fd hfd
      rcases eq_or_ne fd c.fd with rfl | hne
      · exact ⟨_, _, hnext, hself.trans heff, hself'.trans heff'⟩
      · rw [htE.other fd hne, htQ.other fd hne]
        refine h.state fd ?_
        rw [FdPollerBase.InRange, ← htE.maxFds]
        exact hfd
  refine ⟨E', r, Q', r', hregE, hregQ, hpaired, ?_⟩
  rw [RightAt, hmask, hwatch, hwatch', Op.right_iff hi, ← hfits]
  exact ⟨fun hright => hright.1, fun hfit => ⟨hfit, (hpaired hfit).masksTrue⟩⟩

lemma Twins.paired {maxn : ℕ} (h : Twins FitsAt maxn E Q) : Paired E Q := by
  induction h with
  | new hos hos' hE hQ => exact .new hos hos' hE hQ
  | @call _ _ _ _ malloc malloc' _ _ _ _ hrange hP hE hQ ih =>
      obtain ⟨E₁, r₁, Q₁, r₁', hE₁, hQ₁, hpaired, -⟩ := ih.call malloc malloc' hrange
      obtain ⟨rfl, -⟩ := Prod.mk.inj (Except.ok.inj (hE₁.symm.trans hE))
      obtain ⟨rfl, -⟩ := Prod.mk.inj (Except.ok.inj (hQ₁.symm.trans hQ))
      exact hpaired hP

/-- **When the masks are what the kernels watch.**  In every run of calls that fit, to a poller with
`epoll` and to a poller with `kqueue`: the masks of both are what their kernels watch, and the same.
The next call returns from both, and keeps that and adds or removes exactly what it was asked to if
and only if it fits. -/
theorem masks_true_iff {maxn : ℕ} (h : Twins FitsAt maxn E Q) :
    MasksTrue E Q ∧ ∀ malloc malloc' c, E.base.InRange c.fd →
      ∃ E' r Q' r', E.register malloc c = .ok (E', r) ∧ Q.register malloc' c = .ok (Q', r') ∧
        (RightAt E c E' Q' ↔ E.FitsAt c) := by
  refine ⟨h.paired.masksTrue, ?_⟩
  intro malloc malloc' c hrange
  obtain ⟨E', r, Q', r', hE, hQ, -, hiff⟩ := h.paired.call malloc malloc' hrange
  exact ⟨E', r, Q', r', hE, hQ, hiff⟩

/-- A poller with four descriptors; the memory of its entries held zeros. -/
def someEventPoller (R : Type) [Driver R] : Except Fault (EventPoller R) :=
  EventPoller.new zeroLibc (fun _ => ⟨0, .empty, none⟩) 4 100

/-- `add_fd` fits in a new poller, and registers the descriptor for reading. -/
theorem masks_true_add : ∃ E Q E' r Q' r', Twins FitsAt 4 E Q ∧
    E.register (Allocator.above _ 1) (.addFd 2 (some 7)) = .ok (E', r) ∧
    Q.register (Allocator.above _ 1) (.addFd 2 (some 7)) = .ok (Q', r') ∧
    RightAt E (.addFd 2 (some 7)) E' Q' := by
  have htwins : Twins FitsAt 4 _ _ := .new zeroLibc_total zeroLibc_total
    (show someEventPoller EpollPoller.Reg = .ok _ from rfl)
    (show someEventPoller KqueuePoller.Reg = .ok _ from rfl)
  obtain ⟨E', r, Q', r', hE, hQ, hiff⟩ := (masks_true_iff htwins).2 (Allocator.above _ 1)
    (Allocator.above _ 1) (.addFd 2 (some 7)) (by decide)
  exact ⟨_, _, E', r, Q', r', htwins, hE, hQ, hiff.mpr fun _ => by decide⟩

/-- After `add_fd`, `del_event` of the other event: the kernel of `epoll` drops the registration,
and the mask keeps reading. -/
theorem masks_true_fails : ∃ E Q, Twins (fun _ _ => True) 4 E Q ∧
    (E.base.entry 2).evMask = evRead ∧ Driver.watched (E.kernel 2) = .nothing ∧
    (Q.base.entry 2).evMask = evRead ∧ Driver.watched (Q.kernel 2) = ⟨true, false⟩ ∧
    ¬ MasksTrue E Q := by
  have h₀ : Twins (fun _ _ => True) 4 _ _ := .new zeroLibc_total zeroLibc_total
    (show someEventPoller EpollPoller.Reg = .ok _ from rfl)
    (show someEventPoller KqueuePoller.Reg = .ok _ from rfl)
  have h₁ : Twins (fun _ _ => True) 4 _ _ :=
    .call h₀ (c := .addFd 2 (some 7)) (by decide) trivial
      (show register (Allocator.above _ 1) _ _ = .ok (_, _) from rfl)
      (show register (Allocator.above _ 1) _ _ = .ok (_, _) from rfl)
  have h₂ : Twins (fun _ _ => True) 4 _ _ :=
    .call h₁ (c := .delEvent 2 evWrite) (by decide) trivial
      (show register (Allocator.above _ 1) _ _ = .ok (_, _) from rfl)
      (show register (Allocator.above _ 1) _ _ = .ok (_, _) from rfl)
  refine ⟨_, _, h₂, by decide, by decide, by decide, by decide, ?_⟩
  intro htrue
  exact absurd (htrue 2 (by decide)).1 (by decide)

end Pairs

end EventPoller

end Axon
