import Axon.Gate.Admission
import Axon.Gate.ReadEvents

/-!
# Dead connections

A connection whose peer has closed it, or whose socket has failed, is to be released: its slot is
freed, its descriptor handed to `close_fd`, and the main thread told once.

* **`Ledger`** : the connections that are live and the ones that have died, as the outcomes of
  `::read` make them.
* **`Released`** : the worker agrees with the ledger.
* **`Reads`** : runs over new-connection messages and read events.
* **`Reliable`** : no end of stream is met, and no connection already freed is taken for a failed
  one.
* **`dead_released`** : in every run of reliable events the worker agrees with the ledger.
-/

namespace Axon

open Library

namespace FdPollerBase

variable {p p' : FdPollerBase} {fd v : ℤ}

lemma addFd_retired {a : ℕ} {r : Option ℕ} (h : p.addFd a fd r = .ok (p', v)) :
    p'.retired = p.retired ∧ p'.retiredSz = p.retiredSz := by
  rw [addFd] at h
  by_cases hrange : p.InRange fd
  · rw [if_neg (not_not.mpr hrange)] at h
    split_ifs at h
    · obtain ⟨m, -, h⟩ := bind_eq_ok h
      obtain ⟨rfl, -⟩ := Prod.mk.inj (Except.ok.inj h)
      exact ⟨rfl, rfl⟩
    · obtain ⟨rfl, -⟩ := Prod.mk.inj (Except.ok.inj h)
      exact ⟨rfl, rfl⟩
  · rw [if_pos hrange] at h
    obtain ⟨rfl, -⟩ := Prod.mk.inj (Except.ok.inj h)
    exact ⟨rfl, rfl⟩

lemma waitClose_retired (p : FdPollerBase) (fd : ℤ) : (p.waitClose fd).1.retired = p.retired ∧
    (p.waitClose fd).1.retiredSz = p.retiredSz ∧ (p.waitClose fd).1.maxFds = p.maxFds := by
  rw [waitClose]
  split_ifs
  · exact ⟨rfl, rfl, rfl⟩
  · exact ⟨rfl, rfl, rfl⟩
  · exact ⟨rfl, rfl, rfl⟩

/-- `close_fd` appends to the retired descriptors. -/
lemma closeFd_retired (h : p.closeFd fd = .ok (p', v)) :
    window p'.retired 0 p'.retiredSz = window p.retired 0 p.retiredSz ++ [fd] := by
  rw [closeFd] at h
  split_ifs at h
  obtain ⟨rfl, -⟩ := Prod.mk.inj (Except.ok.inj h)
  dsimp only
  rw [window_append, Nat.zero_add]
  congr 1
  · refine window_congr fun i hi => ?_
    rw [Nat.zero_add, Function.update_of_ne (by omega)]
  · simp [window]

lemma applyPending_retiredSz {fuel : ℕ} {q : Option ℕ} {applied : List (ℕ × ℤ × Option ℕ)}
    (h : applyPending fuel p q = .ok (p', applied)) : p'.retiredSz = p.retiredSz := by
  induction fuel generalizing p q applied with
  | zero =>
      cases q with
      | none =>
          rw [applyPending] at h
          obtain ⟨rfl, -⟩ := Prod.mk.inj (Except.ok.inj h)
          rfl
      | some a =>
          rw [applyPending] at h
          exact absurd h (by simp)
  | succ fuel ih =>
      cases q with
      | none =>
          rw [applyPending] at h
          obtain ⟨rfl, -⟩ := Prod.mk.inj (Except.ok.inj h)
          rfl
      | some a =>
          rw [applyPending] at h
          obtain ⟨e, -, h⟩ := bind_eq_ok h
          split_ifs at h
          obtain ⟨⟨p₁, rest⟩, hrest, h⟩ := bind_eq_ok h
          obtain ⟨rfl, -⟩ := Prod.mk.inj (Except.ok.inj h)
          have hsz := ih hrest
          exact hsz

/-- At the end of a turn nothing is retired any more. -/
lemma finish_retiredSz {log : PollerLog} (h : p.finish = .ok (p', log)) : p'.retiredSz = 0 := by
  obtain ⟨⟨p₁, closed⟩, -, h⟩ := bind_eq_ok h
  obtain ⟨⟨p₂, applied⟩, happly, h⟩ := bind_eq_ok h
  obtain ⟨rfl, -⟩ := Prod.mk.inj (Except.ok.inj h)
  exact applyPending_retiredSz happly

end FdPollerBase

namespace Gate

open Codegen ConnectWorker

/-! ## What should happen -/

/-- After such an outcome of `::read` the connection is dead: the end of the stream, or a hard
error.
-/
def Fatal : ReadResult → Prop
  | .data bytes => bytes = []
  | .again => False
  | .fail => True

instance : DecidablePred Fatal
  | .data bytes => inferInstanceAs (Decidable (bytes = []))
  | .again => inferInstanceAs (Decidable False)
  | .fail => inferInstanceAs (Decidable True)

/-- The connections of a worker as the messages and the outcomes of `::read` make them. -/
structure Ledger where
  /-- For each slot the descriptor and the id of the live connection in it. -/
  live : ℕ → Option (ℤ × ℤ)
  /-- The connections that have died. -/
  dead : List (ℤ × ℤ)
  /-- The descriptors of those that have died since the last turn ended. -/
  closing : List ℤ

namespace Ledger

/-- No connection yet. -/
def start : Ledger := ⟨fun _ => none, [], []⟩

/-- A connection has been admitted into a slot, or refused. -/
def enrol (l : Ledger) (s : Option ℕ) (fd hid : ℤ) : Ledger :=
  match s with
  | some i => { l with live := Function.update l.live i (some (fd, hid)) }
  | none => l

/-- `::read` on the connection in a slot has ended with `res`. -/
def read (l : Ledger) (i : ℕ) (res : ReadResult) : Ledger :=
  match l.live i with
  | some (fd, hid) =>
      if Fatal res then
        { live := Function.update l.live i none
          dead := l.dead ++ [(fd, hid)]
          closing := l.closing ++ [fd] }
      else l
  | none => l

/-- A read event for the connection in a slot, or for none. -/
def event (l : Ledger) (s : Option ℕ) (res : ReadResult) : Ledger :=
  match s with
  | some i => l.read i res
  | none => l

/-- A turn has ended. -/
def endTurn (l : Ledger) : Ledger := { l with closing := [] }

variable {l : Ledger} {i : ℕ} {res : ReadResult}

lemma read_fatal {fd hid : ℤ} (hlive : l.live i = some (fd, hid)) (h : Fatal res) :
    l.read i res = { live := Function.update l.live i none, dead := l.dead ++ [(fd, hid)]
                     closing := l.closing ++ [fd] } := by
  rw [read, hlive]
  exact if_pos h

lemma read_of_not_fatal (h : ¬ Fatal res) : l.read i res = l := by
  rw [read]
  cases l.live i with
  | none => rfl
  | some c => exact if_neg h

lemma read_of_none (hnone : l.live i = none) : l.read i res = l := by
  rw [read, hnone]

end Ledger

/-- The frame that tells the main thread that the peer of a connection is gone. -/
def notifyBytes (c : ℤ × ℤ) : List UInt8 :=
  SentFrame.encode (gateFrame ptConnNotify (connNotify c.1 c.2))

lemma length_notifyBytes_pos (c : ℤ × ℤ) : 0 < (notifyBytes c).length := by
  rw [notifyBytes, SentFrame.encode, List.length_append, length_packHeader, msgHeaderLen]
  omega

/-- **The worker agrees with the ledger**: the slots allocated are those of the live connections,
each of them active; the mailbox has got one notification for every connection that has died, and
nothing else, behind what it held at the start; and the descriptors retired are the ones of the
connections that have died since the last turn ended. -/
structure Released (w : ConnectWorker) (n : ℕ) (base : List UInt8) (l : Ledger) : Prop where
  slots : ∃ used, w.container.Slots n used ∧ ∀ i, i ∈ used ↔ l.live i ≠ none
  serves : ∀ i fd hid, l.live i = some (fd, hid) → Serves (w.container.connects i) i fd hid
  mailbox : (w.mailbox.pinfo side).wbuf.bytes = base ++ l.dead.flatMap notifyBytes
  retired : window w.poller.retired 0 w.poller.retiredSz = l.closing

/-! ## Runs -/

/-- What the environment owes to a read event: memory, at most the 2048 bytes asked for, and a
mailbox whose 32-bit positions have room for one more notification. -/
structure Served (w : ConnectWorker) (os : Libc) (res : ReadResult) : Prop where
  total : os.Total
  length_le : res.bytes.length ≤ 2048
  room : (w.mailbox.pinfo side).wbuf.end_ + 11 + msgHeaderLen < 2 ^ 32 - 128

/-- **A run** of a new worker with `n` slots over new-connection messages, read events and turns of
its loop.  `P` is the condition on the read events. -/
inductive Reads (P : ConnectWorker → ℤ → ReadResult → Bool → Prop) (n : ℕ) (base : List UInt8) :
    ConnectWorker → Ledger → Prop
  | start {os : Libc} {a : ℕ} {junk : ℤ → PollerEntry} {junkStack : ℕ → ℤ} {timetick idx : ℤ}
      {rsize wsize : ℕ} {mailbox : TpipeT} {w : ConnectWorker}
      (hr : 0 < rsize ∧ rsize < 2 ^ 31) (hw : 0 < wsize ∧ wsize < 2 ^ 31)
      (hbase : (mailbox.pinfo side).wbuf.Refines base)
      (hstep : ConnectWorker.start os a junk junkStack timetick n rsize wsize mailbox idx = .ok w) :
      Reads P n base w Ledger.start
  | message {w w' : ConnectWorker} {l : Ledger} {os : Libc} {a : ℕ} {mem : ℕ → UInt8}
      {header : MsgHeader} {p : ℕ} {fd hid ip port : ℤ} {s : Option ℕ} (hrun : Reads P n base w l)
      (hos : os.Total) (hargs : newconnArgs mem header p = some (fd, hid, ip, port)) (hfd : 0 ≤ fd)
      (hstep : w.onMailboxRead os a mem header p = .ok (w', s)) :
      Reads P n base w' (l.enrol s fd hid)
  | readable {w w' : ConnectWorker} {l : Ledger} {os : Libc} {fd : ℤ} {res : ReadResult}
      {errno : Bool} {wres : WriteResult} (hrun : Reads P n base w l) (henv : Served w os res)
      (hP : P w fd res errno) (hstep : w.poll os fd res errno wres = .ok w') :
      Reads P n base w' (l.event (w.target fd) res)
  | endTurn {w w' : ConnectWorker} {l : Ledger} (hrun : Reads P n base w l)
      (hstep : w.step .endTurn = .ok w') : Reads P n base w' l.endTurn

/-- **The condition** on a read event: when it is for an active connection, `::read` does not meet
the end of the stream; when it is for a connection that has been freed, `errno` is left as `EINTR`
or `EAGAIN`. -/
def Reliable (w : ConnectWorker) (fd : ℤ) (res : ReadResult) (errno : Bool) : Prop :=
  ∀ i, w.target fd = some i →
    if (w.container.connects i).status = connActive then res ≠ .data [] else errno = true

/-- What a run of reliable events keeps. -/
structure Kept (w : ConnectWorker) (n : ℕ) (used : Finset ℕ) (base : List UInt8) (l : Ledger) :
    Prop where
  sound : Sound w n used
  mem_iff : ∀ i, i ∈ used ↔ l.live i ≠ none
  serves : ∀ i fd hid, l.live i = some (fd, hid) → Serves (w.container.connects i) i fd hid
  poller : (w.mailbox.pinfo side).poller = true
  mailbox : (w.mailbox.pinfo side).wbuf.Refines (base ++ l.dead.flatMap notifyBytes)
  retired : window w.poller.retired 0 w.poller.retiredSz = l.closing
  calm : ∀ i, Calm w.rbufBound (w.container.connects i)
  rbuf : ∀ i ∈ used, (w.container.connects i).rbuf ≠ none

section Step

variable {w w' : ConnectWorker} {n : ℕ} {used : Finset ℕ} {base : List UInt8} {l : Ledger}

lemma Kept.released (h : Kept w n used base l) : Released w n base l :=
  ⟨⟨used, h.sound.slots, h.mem_iff⟩, h.serves, h.mailbox.bytes_eq, h.retired⟩

/-- The invariant does not depend on the entries of the poller or on what has been echoed. -/
lemma Kept.congr (h : Kept w n used base l) (hcon : w'.container = w.container)
    (hmail : w'.mailbox = w.mailbox) (hret : w'.poller.retired = w.poller.retired)
    (hsz : w'.poller.retiredSz = w.poller.retiredSz) (hr : w'.rbufSize = w.rbufSize)
    (hw : w'.wbufSize = w.wbufSize) : Kept w' n used base l := by
  refine ⟨⟨?_, ?_, ?_, ?_⟩, h.mem_iff, ?_, ?_, ?_, ?_, ?_, ?_⟩
  · rw [hcon]; exact h.sound.slots
  · rw [hcon]; exact h.sound.usable
  · rw [hcon, hr]; exact h.sound.rsize
  · rw [hcon, hw]; exact h.sound.wsize
  · rw [hcon]; exact h.serves
  · rw [hmail]; exact h.poller
  · rw [hmail]; exact h.mailbox
  · rw [hret, hsz]; exact h.retired
  · rw [hcon, rbufBound, hr]; exact h.calm
  · rw [hcon]; exact h.rbuf

lemma Kept.rbufSize_lt (h : Kept w n used base l) : 0 < w.rbufSize ∧ w.rbufSize < 2 ^ 31 := by
  rw [← h.sound.rsize]
  exact ⟨h.sound.usable.rsize_pos, h.sound.usable.rsize_lt⟩

lemma Kept.rbufBound_lt (h : Kept w n used base l) :
    2176 ≤ w.rbufBound ∧ w.rbufBound + 2048 < 2 ^ 32 - 128 := by
  obtain ⟨hpos, hlt⟩ := h.rbufSize_lt
  rw [rbufBound]
  omega

/-- An allocated connection has an empty read buffer of a bounded size. -/
lemma Kept.ready (h : Kept w n used base l) {i : ℕ} (hi : i ∈ used) :
    ∃ b, (w.container.connects i).rbuf = some b ∧ b.Refines [] ∧ b.Bounded w.rbufBound := by
  obtain ⟨b, hb⟩ := Option.ne_none_iff_exists'.mp (h.rbuf i hi)
  exact ⟨b, hb, h.calm i b hb⟩

/-- So has a slot that has just been filled, whose buffer has been made ready twice. -/
lemma Kept.ready_placed (h : Kept w n used base l) {fd hid : ℤ} {t : ConnectContainer} {i : ℕ}
    (hp : Placed w n used fd hid t i) :
    ∃ b, (t.connects i).rbuf = some b ∧ b.Refines [] ∧ b.Bounded w.rbufBound := by
  obtain ⟨hrpos, hrlt⟩ := h.rbufSize_lt
  obtain ⟨os, b, b', hb, hb', hrbuf⟩ := hp.rbuf
  have hle : w.rbufSize ≤ w.rbufBound := Nat.le_add_right _ _
  have hlt : w.rbufBound < 2 ^ 32 := by
    rw [rbufBound]
    omega
  have hcalm := readyBuffer_calm (h.calm i) hrpos hle hlt hb
  exact ⟨b', hrbuf,
    readyBuffer_calm (fun b₀ h₀ => Option.some.inj h₀ ▸ hcalm) hrpos hle hlt hb'⟩

/-- A message about a new connection. -/
lemma Kept.newConnect (h : Kept w n used base l) {os : Libc} {a : ℕ} {fd hid ip port : ℤ}
    {s : Option ℕ} (hos : os.Total) (hfd : 0 ≤ fd)
    (hstep : w.newConnect os a fd hid ip port = .ok (w', s)) :
    ∃ used', Kept w' n used' base (l.enrol s fd hid) := by
  have hle := h.sound.slots.card_le
  by_cases hfull : used.card = n
  · obtain ⟨rfl, rfl⟩ :=
      Prod.mk.inj (Except.ok.inj ((h.sound.newConnect_full hfull).symm.trans hstep))
    exact ⟨used, h⟩
  · obtain ⟨t, i, hp, heq⟩ := h.sound.newConnect_eq (by omega) hos hfd hid ip port
    rw [heq a] at hstep
    obtain ⟨⟨p', v⟩, hadd, hstep⟩ := bind_eq_ok hstep
    obtain ⟨rfl, rfl⟩ := Prod.mk.inj (Except.ok.inj hstep)
    obtain ⟨hret, hsz⟩ := FdPollerBase.addFd_retired hadd
    obtain ⟨b, hrbuf, hcalm⟩ := h.ready_placed hp
    have hrest : ∀ j ≠ i, (t.connects j).rbuf = (w.container.connects j).rbuf := by
      intro j hj
      show (t.connects j).core.rbuf = (w.container.connects j).core.rbuf
      rw [hp.rest j hj]
    refine ⟨insert i used, hp.sound p', fun j => ?_, fun j fd' hid' hj => ?_, h.poller, h.mailbox,
      ?_, fun j b₀ h₀ => ?_, fun j hj => ?_⟩
    · rw [Ledger.enrol]
      rcases eq_or_ne j i with rfl | hne
      · simp
      · simp only [Function.update_of_ne hne]
        rw [Finset.mem_insert, ← h.mem_iff j]
        simp [hne]
    · rw [Ledger.enrol] at hj
      rcases eq_or_ne j i with rfl | hne
      · simp only [Function.update_self, Option.some.injEq, Prod.mk.injEq] at hj
        obtain ⟨rfl, rfl⟩ := hj
        exact hp.serves
      · simp only [Function.update_of_ne hne] at hj
        exact (h.serves j fd' hid' hj).congr (hp.rest j hne)
    · dsimp only
      rw [hret, hsz]
      exact h.retired
    · dsimp only at h₀
      rcases eq_or_ne j i with rfl | hne
      · rw [hrbuf] at h₀
        exact Option.some.inj h₀ ▸ hcalm
      · rw [hrest j hne] at h₀
        exact h.calm j b₀ h₀
    · dsimp only
      rcases eq_or_ne j i with rfl | hne
      · rw [hrbuf]
        simp
      · rw [hrest j hne]
        exact h.rbuf j (Finset.mem_of_mem_insert_of_ne hj hne)

/-- A connection whose read buffer has been replaced by another empty one. -/
lemma Kept.withRbuf (h : Kept w n used base l) {i : ℕ} (hi : i ∈ used) {b : BufferT}
    (hr : b.Refines []) (hbd : b.Bounded w.rbufBound) : Kept (w.withRbuf i b) n used base l := by
  have hcon : (w.withRbuf i b).container = { w.container with
      connects := Function.update w.container.connects i
        { w.container.connects i with rbuf := some b } } := rfl
  refine ⟨⟨?_, h.sound.usable.congr rfl rfl rfl, h.sound.rsize, h.sound.wsize⟩, h.mem_iff,
    fun j fd hid hj => ?_, h.poller, h.mailbox, h.retired, fun j b₀ h₀ => ?_, fun j hj => ?_⟩
  · rw [hcon]
    exact h.sound.slots.setConnect hi _
  · have hs := h.serves j fd hid hj
    rw [hcon]
    rcases eq_or_ne j i with rfl | hne
    · simp only [Function.update_self]
      exact ⟨hs.index, hs.fd, hs.hid, hs.status, hs.mgr⟩
    · simp only [Function.update_of_ne hne]
      exact hs
  · rw [hcon] at h₀
    rcases eq_or_ne j i with rfl | hne
    · simp only [Function.update_self] at h₀
      exact Option.some.inj h₀ ▸ ⟨hr, hbd⟩
    · simp only [Function.update_of_ne hne] at h₀
      exact h.calm j b₀ h₀
  · rw [hcon]
    rcases eq_or_ne j i with rfl | hne
    · simp
    · simp only [Function.update_of_ne hne]
      exact h.rbuf j hj

lemma Kept.canWrite (h : Kept w n used base l) {os : Libc} {res : ReadResult}
    (henv : Served w os res) : w.mailbox.CanWrite side (2 + width pbConnNotify.fields) where
  poller := h.poller
  refines := by
    rw [h.mailbox.bytes_eq]
    exact h.mailbox
  room := henv.room

/-- **The main thread is told once**: `wait_close` puts one notification into the mailbox. -/
lemma Kept.waitClose (h : Kept w n used base l) {os : Libc} {res : ReadResult}
    (henv : Served w os res) {c : Connect} {fd hid : ℤ} (hfd : c.fd = fd)
    (hhid : c.hid = hid) (wres : WriteResult) :
    ∃ t, w.waitClose os c wres =
        .ok { w with poller := (w.poller.waitClose fd).1, mailbox := t } ∧
      (t.pinfo side).poller = true ∧ (t.pinfo side).wbuf.Refines
        (base ++ l.dead.flatMap notifyBytes ++ notifyBytes (fd, hid)) := by
  obtain ⟨t, hwait, hpoll, hrefines⟩ := waitClose_eq henv.total (h.canWrite henv) hfd hhid wres
  rw [h.mailbox.bytes_eq] at hrefines
  exact ⟨t, hwait, hpoll, hrefines⟩

/-- **A connection dies**: what `on_read` does up to the call of `close_fd`, and what it leaves. -/
lemma Kept.fail (h : Kept w n used base l) {os : Libc} (henv : Served w os .fail) {i : ℕ}
    {fd hid : ℤ} (hlive : l.live i = some (fd, hid)) (errno : Bool) (wres : WriteResult) :
    ∃ f : FdPollerBase → ConnectWorker,
      w.onRead os i .fail errno wres = (do
        let (p, _) ← (w.poller.waitClose fd).1.closeFd fd
        pure (f p)) ∧
      ∀ p v, (w.poller.waitClose fd).1.closeFd fd = .ok (p, v) →
        Kept (f p) n (used.erase i) base (l.read i .fail) := by
  have hi : i ∈ used := (h.mem_iff i).mpr (by simp [hlive])
  have hs := h.serves i fd hid hlive
  obtain ⟨b, hb, hr, hbd⟩ := h.ready hi
  obtain ⟨b', hr', hbd', hread⟩ := onRead_fail henv.total hs.status hb hr hbd
    h.rbufBound_lt.1 h.rbufBound_lt.2 errno wres
  have h₁ := h.withRbuf hi hr' hbd'
  have hs₁ := h₁.serves i fd hid hlive
  obtain ⟨t, hwait, hpoll, hmail⟩ := h₁.waitClose ⟨henv.total, henv.length_le, henv.room⟩ hs₁.fd
    hs₁.hid wres
  set w₂ : ConnectWorker := { w.withRbuf i b' with
    poller := ((w.withRbuf i b').poller.waitClose fd).1, mailbox := t } with hw₂
  have hsound : Sound w₂ n used :=
    ⟨h₁.sound.slots, h₁.sound.usable, h₁.sound.rsize, h₁.sound.wsize⟩
  have hs₂ : Serves (w₂.container.connects i) i fd hid := h₁.serves i fd hid hlive
  refine ⟨fun p => { w₂ with poller := p, container := w₂.container.delist i }, ?_,
    fun p v hclose => ?_⟩
  · rw [hread]
    dsimp only
    rw [hwait, ok_bind, hs₁.index, hs₁.hid, hsound.closeConnect_eq hi hs₂.hid, hs₂.fd]
    rfl
  · have hbuf := fun j => w₂.container.delist_rbuf i j
    rw [Ledger.read_fatal hlive (show Fatal .fail from trivial)]
    refine ⟨hsound.delist hi p, fun j => ?_, fun j fd' hid' hj => ?_, hpoll, ?_, ?_,
      fun j b₀ h₀ => ?_, fun j hj => ?_⟩
    · rcases eq_or_ne j i with rfl | hne
      · simp
      · simp only [Function.update_of_ne hne]
        rw [← h.mem_iff j]
        simp [hne]
    · have hne : j ≠ i := by
        rintro rfl
        simp at hj
      simp only [Function.update_of_ne hne] at hj
      exact (h₁.serves j fd' hid' hj).congr (w₂.container.delist_core_of_ne hne)
    · rw [List.flatMap_append, ← List.append_assoc]
      simpa using hmail
    · obtain ⟨hret, hsz, -⟩ := FdPollerBase.waitClose_retired w.poller fd
      rw [FdPollerBase.closeFd_retired hclose, hret, hsz, h.retired]
    · exact h₁.calm j b₀ ((hbuf j).symm.trans h₀)
    · have hj' := h₁.rbuf j (Finset.mem_of_mem_erase hj)
      rw [← hbuf j] at hj'
      exact hj'

/-- **A connection lives on** after data, `EAGAIN` and, in the code, the end of the stream. -/
lemma Kept.spares (h : Kept w n used base l) {os : Libc} {res : ReadResult}
    (henv : Served w os res) {i : ℕ} (hi : i ∈ used) (hres : res ≠ .fail) (errno : Bool)
    (wres : WriteResult) :
    ∃ b e, w.onRead os i res errno wres = .ok { w.withRbuf i b with echoed := e } ∧
      Kept { w.withRbuf i b with echoed := e } n used base l := by
  obtain ⟨⟨fd, hid⟩, hlive⟩ := Option.ne_none_iff_exists'.mp ((h.mem_iff i).mp hi)
  obtain ⟨b, hb, hr, hbd⟩ := h.ready hi
  obtain ⟨b', hr', hbd', hread⟩ := onRead_spares henv.total (h.serves i fd hid hlive).status hb
    hr hbd h.rbufBound_lt.1 h.rbufBound_lt.2 errno wres henv.length_le hres
  exact ⟨b', _, hread, (h.withRbuf hi hr' hbd').congr rfl rfl rfl rfl rfl rfl⟩

/-- A freed connection that is called back although its slot is free. -/
lemma Kept.freed (h : Kept w n used base l) {os : Libc} {res : ReadResult} {errno : Bool}
    {wres : WriteResult} {i : ℕ} (hi : i ∉ used)
    (hstep : w.onRead os i res errno wres = .ok w') :
    l.live i = none ∧ (w.container.connects i).status ≠ connActive ∧
      ∃ b, (w.container.connects i).rbuf = some b := by
  refine ⟨not_not.mp fun hne => hi ((h.mem_iff i).mpr hne), ?_, ?_⟩
  · rw [h.sound.slots.status i hi]
    decide
  · cases hb : (w.container.connects i).rbuf with
    | none =>
        rw [onRead, Connect.read, hb] at hstep
        exact absurd hstep (by simp [Bind.bind, Except.bind])
    | some b => exact ⟨b, rfl⟩

/-- A reliable read event. -/
lemma Kept.poll (h : Kept w n used base l) {os : Libc} {fd : ℤ} {res : ReadResult} {errno : Bool}
    {wres : WriteResult} (henv : Served w os res) (hrel : Reliable w fd res errno)
    (hstep : w.poll os fd res errno wres = .ok w') :
    ∃ used', Kept w' n used' base (l.event (w.target fd) res) := by
  cases htarget : w.target fd with
  | none =>
      rcases poll_of_no_target htarget hstep with rfl | rfl
      · exact ⟨used, h⟩
      · exact ⟨used, h.congr rfl rfl rfl rfl rfl rfl⟩
  | some i =>
      have hcond := hrel i htarget
      rw [poll_of_target htarget] at hstep
      by_cases hi : i ∈ used
      · obtain ⟨⟨fd', hid⟩, hlive⟩ := Option.ne_none_iff_exists'.mp ((h.mem_iff i).mp hi)
        have hs := h.serves i fd' hid hlive
        rw [if_pos hs.status] at hcond
        by_cases hres : res = .fail
        · subst hres
          obtain ⟨f, heq, hkept⟩ := h.fail henv hlive errno wres
          rw [heq] at hstep
          obtain ⟨⟨p, v⟩, hclose, hstep⟩ := bind_eq_ok hstep
          obtain rfl := Except.ok.inj hstep
          exact ⟨used.erase i, hkept p v hclose⟩
        · obtain ⟨b, e, hread, hkept⟩ := h.spares henv hi hres errno wres
          obtain rfl := Except.ok.inj (hread.symm.trans hstep)
          have hnot : ¬ Fatal res := by
            cases res with
            | again => exact fun hf => hf
            | fail => exact absurd rfl hres
            | data bytes => exact fun hf => hcond (congrArg ReadResult.data hf)
          rw [Ledger.event, Ledger.read_of_not_fatal hnot]
          exact ⟨used, hkept⟩
      · -- the slot has been freed: nothing is done when `errno` says so
        obtain ⟨hnone, hinactive, b, hb⟩ := h.freed hi hstep
        rw [if_neg hinactive] at hcond
        subst hcond
        rw [Ledger.event, Ledger.read_of_none hnone]
        rw [onRead_inactive hinactive hb, if_pos rfl] at hstep
        obtain rfl := Except.ok.inj hstep
        exact ⟨used, h⟩

/-- The end of a turn. -/
lemma Kept.endTurn (h : Kept w n used base l) (hstep : w.step .endTurn = .ok w') :
    Kept w' n used base l.endTurn := by
  rw [ConnectWorker.step] at hstep
  obtain ⟨⟨p', log⟩, hfin, hstep⟩ := bind_eq_ok hstep
  obtain rfl := Except.ok.inj hstep
  have hs := h.sound
  refine ⟨⟨hs.slots, hs.usable, hs.rsize, hs.wsize⟩, h.mem_iff, h.serves, h.poller, h.mailbox, ?_,
    h.calm, h.rbuf⟩
  dsimp only
  rw [FdPollerBase.finish_retiredSz hfin]
  rfl

lemma closeConnect_mailbox {vfd hid : ℤ} (h : w.closeConnect vfd hid = .ok w') :
    w'.mailbox = w.mailbox := by
  rw [ConnectWorker.closeConnect] at h
  split at h
  · obtain rfl := Except.ok.inj h
    rfl
  · split_ifs at h
    · obtain rfl := Except.ok.inj h
      rfl
    · obtain ⟨⟨p, v⟩, -, h⟩ := bind_eq_ok h
      obtain ⟨t, -, h⟩ := bind_eq_ok h
      obtain rfl := Except.ok.inj h
      rfl

/-- **After an unreliable event** the worker no longer agrees with the ledger: at the end of the
stream the connection stays, and a connection that has been freed is announced again. -/
lemma Kept.not_released (h : Kept w n used base l) {os : Libc} {fd : ℤ} {res : ReadResult}
    {errno : Bool} {wres : WriteResult} (henv : Served w os res) (hrel : ¬ Reliable w fd res errno)
    (hstep : w.poll os fd res errno wres = .ok w') :
    ¬ Released w' n base (l.event (w.target fd) res) := by
  simp only [Reliable, not_forall] at hrel
  obtain ⟨i, htarget, hcond⟩ := hrel
  rw [poll_of_target htarget] at hstep
  rw [htarget]
  intro hreleased
  by_cases hi : i ∈ used
  · obtain ⟨⟨fd', hid⟩, hlive⟩ := Option.ne_none_iff_exists'.mp ((h.mem_iff i).mp hi)
    have hs := h.serves i fd' hid hlive
    rw [if_pos hs.status, not_not] at hcond
    subst hcond
    obtain ⟨b, e, hread, -⟩ := h.spares henv hi (by simp) errno wres
    obtain rfl := Except.ok.inj (hread.symm.trans hstep)
    obtain ⟨used', hslots, hmem⟩ := hreleased.slots
    have hdead : (l.event (some i) (.data [])).live i = none := by
      rw [Ledger.event, Ledger.read_fatal hlive (show Fatal (.data []) from rfl)]
      exact Function.update_self ..
    have hnot : i ∉ used' := fun hi' => (hmem i).mp hi' hdead
    have hempty := hslots.status i hnot
    have hactive : ((w.withRbuf i b).container.connects i).status = connActive := by
      simp [ConnectWorker.withRbuf, setConn, hs.status]
    exact absurd (hempty.symm.trans hactive) (by decide)
  · obtain ⟨hnone, hinactive, b, hb⟩ := h.freed hi hstep
    rw [if_neg hinactive] at hcond
    have hmail := hreleased.mailbox
    rw [Ledger.event, Ledger.read_of_none hnone] at hmail
    rw [onRead_inactive hinactive hb, if_neg hcond] at hstep
    obtain ⟨t, hwait, -, hrefines⟩ := h.waitClose henv rfl rfl wres
    rw [hwait, ok_bind] at hstep
    rw [closeConnect_mailbox hstep] at hmail
    have hlen := congrArg List.length (hrefines.bytes_eq.symm.trans hmail)
    have hpos := length_notifyBytes_pos ((w.container.connects i).fd, (w.container.connects i).hid)
    rw [List.length_append] at hlen
    omega

end Step

/-- **Runs of reliable events.** -/
lemma Reads.kept {n : ℕ} {base : List UInt8} {w : ConnectWorker} {l : Ledger} (hn : n < 2 ^ 31)
    (h : Reads Reliable n base w l) : ∃ used, Kept w n used base l := by
  induction h with
  | start hr hw hbase hstep =>
      have hsound := sound_start hstep hn hr hw
      obtain ⟨p, p', v, hp, hadd, rfl⟩ := start_eq_ok hstep
      have hbuf : ∀ (junk : ℕ → ℤ) (r w i : ℕ),
          ((ConnectContainer.new junk n workerSelf r w).connects i).rbuf = none := by
        intro junk r w i
        simp only [ConnectContainer.new]
        split_ifs <;> rfl
      refine ⟨∅, hsound, by simp [Ledger.start], by simp [Ledger.start], ?_, ?_, ?_, ?_, by simp⟩
      · rw [TpipeT.init, TpipeT.modify_pinfo_self]
      · rw [TpipeT.init, TpipeT.modify_pinfo_self]
        simpa [Ledger.start] using hbase
      · dsimp only
        rw [(FdPollerBase.addFd_retired hadd).2, FdPollerBase.new_retiredSz hp]
        rfl
      · intro i b hb
        dsimp only at hb
        rw [hbuf] at hb
        exact absurd hb (by simp)
  | message _ hos hargs hfd hstep ih =>
      obtain ⟨used, hk⟩ := ih
      rw [onMailboxRead_of_args hargs] at hstep
      exact hk.newConnect hos hfd hstep
  | readable _ henv hP hstep ih =>
      obtain ⟨used, hk⟩ := ih
      exact hk.poll henv hP hstep
  | endTurn _ hstep ih =>
      obtain ⟨used, hk⟩ := ih
      exact ⟨used, hk.endTurn hstep⟩

/-- A read event for a live connection returns, as long as `retired_` has room. -/
lemma Kept.poll_returns {w : ConnectWorker} {n : ℕ} {used : Finset ℕ} {base : List UInt8}
    {l : Ledger} (h : Kept w n used base l) {os : Libc} {fd : ℤ} {res : ReadResult}
    (henv : Served w os res) (hroom : w.poller.retiredSz < w.poller.maxFds) {i : ℕ} {c : ℤ × ℤ}
    (htarget : w.target fd = some i) (hlive : l.live i = some c) (errno : Bool)
    (wres : WriteResult) : ∃ w', w.poll os fd res errno wres = .ok w' := by
  obtain ⟨fd', hid⟩ := c
  have hi : i ∈ used := (h.mem_iff i).mpr (by simp [hlive])
  rw [poll_of_target htarget]
  by_cases hres : res = .fail
  · subst hres
    obtain ⟨f, heq, -⟩ := h.fail henv hlive errno wres
    obtain ⟨-, hsz, hmax⟩ := FdPollerBase.waitClose_retired w.poller fd'
    rw [heq, FdPollerBase.closeFd, hsz, hmax, if_pos hroom]
    exact ⟨_, rfl⟩
  · obtain ⟨b, e, hread, -⟩ := h.spares henv hi hres errno wres
    exact ⟨_, hread⟩

/-- **When dead connections are released.**  In every run of reliable events the worker agrees with
the ledger: a connection on which a read has met a hard error has had its slot freed, its descriptor
handed to `close_fd` and exactly one notification with its descriptor and id written to the mailbox,
and every other connection admitted is still active and allocated.  The next read event for a live
connection returns while `retired_` has room; and after the next read event that returns the worker
agrees with the ledger if and only if the event is reliable. -/
theorem dead_released {n : ℕ} {base : List UInt8} {w : ConnectWorker} {l : Ledger} (hn : n < 2 ^ 31)
    (hrun : Reads Reliable n base w l) :
    Released w n base l ∧
    (∀ os fd res errno wres i c, Served w os res → w.poller.retiredSz < w.poller.maxFds →
      w.target fd = some i → l.live i = some c → ∃ w', w.poll os fd res errno wres = .ok w') ∧
    ∀ os fd res errno wres w', Served w os res → w.poll os fd res errno wres = .ok w' →
      (Released w' n base (l.event (w.target fd) res) ↔ Reliable w fd res errno) := by
  obtain ⟨used, hk⟩ := hrun.kept hn
  refine ⟨hk.released, ?_, ?_⟩
  · intro os fd res errno wres i c henv hroom htarget hlive
    exact hk.poll_returns henv hroom htarget hlive errno wres
  · intro os fd res errno wres w' henv hstep
    constructor
    · intro hreleased
      by_contra hrel
      exact hk.not_released henv hrel hstep hreleased
    · intro hrel
      obtain ⟨used', hk'⟩ := hk.poll henv hrel hstep
      exact hk'.released

lemma reads_startSome {n : ℕ} {w : ConnectWorker} (h : startSome n = .ok w)
    (P : ConnectWorker → ℤ → ReadResult → Bool → Prop) : Reads P n [] w Ledger.start := by
  obtain ⟨mailbox, hnew, h⟩ := bind_eq_ok h
  obtain ⟨wbuf, rbuf, hw, -, rfl⟩ := TpipeT.new_eq_ok hnew
  exact .start (by decide) (by decide) (BufferT.new_refines (by decide) hw) h

/-- A worker that has admitted a connection with the id 1 on the descriptor 2. -/
lemma reads_newconn :
    ∃ w l, (∀ P, Reads P 4 [] w l) ∧ l.live 0 = some (2, 1) ∧ l.dead = [] ∧
      w.target 2 = some 0 ∧ (w.container.connects 0).status = connActive ∧
      Served w zeroLibc .fail ∧ Served w zeroLibc (.data []) ∧
      w.poller.retiredSz < w.poller.maxFds := by
  have h₀ := fun P => reads_startSome (show startSome 4 = .ok _ from rfl) P
  have hargs := newconnArgs_some (show FieldType.int32.InRange 2 by decide)
  have h₁ := fun P => (h₀ P).message zeroLibc_total hargs (by decide)
    ((onMailboxRead_of_args hargs).trans
      (show ConnectWorker.newConnect zeroLibc 0 _ 2 1 0x7F000001 80 = .ok (_, some 0) from rfl))
  exact ⟨_, _, h₁, rfl, rfl, rfl, rfl, ⟨zeroLibc_total, by decide, by decide⟩,
    ⟨zeroLibc_total, by decide, by decide⟩, by decide⟩

/-- A connection whose socket fails is released. -/
theorem dead_released_failed : ∃ w l, Reads Reliable 4 [] w l ∧ l.live 0 = none ∧
    l.dead = [(2, 1)] ∧ Released w 4 [] l := by
  obtain ⟨w, l, hrun, hlive, hdead, htarget, hactive, henv, -, hroom⟩ := reads_newconn
  obtain ⟨w', hstep⟩ := (dead_released (by decide) (hrun Reliable)).2.1 zeroLibc 2 .fail false
    .again 0 (2, 1) henv hroom htarget hlive
  have hrel : Reliable w 2 .fail false := by
    intro i hi
    obtain rfl := Option.some.inj (htarget.symm.trans hi)
    rw [if_pos hactive]
    simp
  have hrun' := (hrun Reliable).readable henv hrel hstep
  rw [htarget, Ledger.event, Ledger.read_fatal hlive (show Fatal .fail from trivial)] at hrun'
  refine ⟨w', _, hrun', by simp, by simp [hdead], (dead_released (by decide) hrun').1⟩

/-- A connection at the end of its stream stays allocated and active, and nobody is told. -/
theorem dead_released_fails : ∃ w w' l, Reads (fun _ _ _ _ => True) 4 [] w l ∧
    l.live 0 = some (2, 1) ∧ w.target 2 = some 0 ∧
    w.poll zeroLibc 2 (.data []) false .again = .ok w' ∧
    (w'.container.connects 0).status = connActive ∧ w'.mailbox = w.mailbox ∧
    ¬ Released w' 4 [] (l.event (w.target 2) (.data [])) := by
  obtain ⟨w, l, hrun, hlive, -, htarget, hactive, -, henv, -⟩ := reads_newconn
  obtain ⟨used, hk⟩ := (hrun Reliable).kept (by decide)
  have hi : 0 ∈ used := (hk.mem_iff 0).mpr (by simp [hlive])
  obtain ⟨b, e, hread, -⟩ := hk.spares henv hi (by simp) false .again
  have hstep := (poll_of_target htarget).trans hread
  refine ⟨w, _, l, hrun _, hlive, htarget, hstep, ?_, rfl, hk.not_released henv ?_ hstep⟩
  · simp [withRbuf, setConn, hactive]
  · intro hrel
    have hcond := hrel 0 htarget
    rw [if_pos hactive] at hcond
    exact hcond rfl

end Gate

end Axon
