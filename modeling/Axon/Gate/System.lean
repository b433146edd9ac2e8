import Axon.Core.TpipeReplay
import Axon.Gate.LoadAccounting

/-!
# The gate as a whole

The main thread and its workers run at the same time.  They share nothing but the mailboxes: worker
`i` and the main thread hold the same `tpipe_t`, each uses its own side, and what one side hands to
the socket is read on the other some time later.

A callback of `on_ev_read` is an event of its own here, so that whatever happens between two
callbacks of one read event happens in some run.

* **`System`** : the threads, and what is on its way between them.
* **`System.step`** : one event of one thread.
* **`System.Fair`** : what the operating system promises about an event.
* **`System.launch`** : the gate as `init` and `start_worker` leave it.
* **`System.Run`** : any interleaving of events.
-/

namespace Axon

open Library

namespace Gate

open Codegen

/-- The threads of the gate and the socket pairs of their mailboxes. -/
structure System where
  main : ClientMgr
  worker : ℕ → ConnectWorker
  /-- What every call of `::write` on a side of the mailbox of a worker has taken. -/
  chunks : ℕ → Fin 2 → List (List UInt8)
  /-- What a side has written and the other has not read yet. -/
  inFlight : ℕ → Fin 2 → List UInt8
  /-- How many of the callbacks of a side have been run. -/
  handled : ℕ → Fin 2 → ℕ
  /-- The connections given to the workers. -/
  dispatched : List Dispatched
  /-- The workers that have announced themselves. -/
  up : List ℕ

/-- What `init` leaves behind. -/
lemma ClientMgr.init_eq_ok {junk : ℕ → ThreadWorker} {mailbox : ℕ → TpipeT} {num : ℤ}
    {m : ClientMgr} (h : ClientMgr.init junk mailbox num = .ok m) :
    m.inited = true ∧ 0 < m.workerNum ∧ m.workerNum ≤ 32 ∧ m.listens = 0 ∧
      ∀ i, (m.workers i).mailbox = mailbox i := by
  obtain ⟨_, hnum, h⟩ := bind_eq_ok h
  have hpos := rtAssert_eq_ok hnum
  obtain rfl := Except.ok.inj h
  refine ⟨rfl, ?_, ?_, rfl, fun _ => rfl⟩
  · show 0 < (if 32 < num then 32 else num).toNat
    split_ifs <;> omega
  · show (if 32 < num then 32 else num).toNat ≤ 32
    split_ifs <;> omega

/-- What `start_worker` makes of an element of `workers_`. -/
lemma ClientMgr.startWorker_workers {m : ClientMgr} {maxConnect : ℤ} {started : ℕ → Bool} {i : ℕ}
    (hin : m.inited = true) (hi : i < m.workerNum) :
    (m.startWorker maxConnect started).1.workers i =
      { activeConn := 0, maxConn := maxConnect / m.workerNum + 100
        status := if started i then .start else .null
        mailbox := (m.workers i).mailbox.init side true } := by
  rw [startWorker, if_neg (by simp [hin])]
  exact if_pos hi

namespace System

/-- What can happen. -/
inductive Event where
  /-- `on_accept_new_connect`. -/
  | accept (os : Libc) (sockfd : ℤ) (ip port : ℕ) (res : WriteResult)
  /-- `start_loop` of a worker announces it. -/
  | up (os : Libc) (i : ℕ) (res : WriteResult)
  /-- A side of a mailbox is writable. -/
  | evWrite (i : ℕ) (side : Fin 2) (res : WriteResult)
  /-- A side of a mailbox is readable; `::read` gives `n` bytes, or `EAGAIN`. -/
  | evRead (os : Libc) (i : ℕ) (side : Fin 2) (n : Option ℕ)
  /-- The main thread runs its next callback for the mailbox of a worker; the payload is at `p`. -/
  | mainCall (os : Libc) (i : ℕ) (mem : ℕ → UInt8) (p : ℕ) (res : WriteResult)
  /-- A worker runs its next callback. -/
  | workerCall (os : Libc) (i a : ℕ) (mem : ℕ → UInt8) (p : ℕ)
  /-- `do_poll` of a worker finds a descriptor readable. -/
  | poll (os : Libc) (i : ℕ) (fd : ℤ) (res : ReadResult) (errno : Bool) (wres : WriteResult)
  /-- The rest of `process()` of a worker. -/
  | endTurn (i : ℕ)

/-- The mailbox of a worker. -/
def pipe (s : System) (i : ℕ) : TpipeT := (s.main.workers i).mailbox

/-- What the calls of `::write` took while a thread made `t'` out of a mailbox `t`: `write` calls it
once, when it has put a frame into the write buffer. -/
def sentBy (t t' : TpipeT) (side : Fin 2) (res : WriteResult) : List (List UInt8) :=
  if (t'.pinfo side).wbuf.len = (t.pinfo side).wbuf.len then []
  else [TpipeT.takenBy (t'.pinfo side).wbuf.bytes res]

/-- The mailboxes are other ones, and the sockets have taken these pieces. -/
def absorb (s : System) (t : ℕ → TpipeT) (cs : ℕ → Fin 2 → List (List UInt8)) : System :=
  { s with
    main := { s.main with workers := fun i => { s.main.workers i with mailbox := t i } }
    worker := fun i => { s.worker i with mailbox := t i }
    chunks := fun i side => s.chunks i side ++ cs i side
    inFlight := fun i side => s.inFlight i side ++ (cs i side).flatten }

/-- The main thread has run. -/
def mainRan (s : System) (main : ClientMgr) (res : WriteResult) : System :=
  { s with main }.absorb (fun i => (main.workers i).mailbox) fun i side =>
    if side = ClientMgr.side then sentBy (s.pipe i) (main.workers i).mailbox side res else []

/-- A worker has run. -/
def workerRan (s : System) (i : ℕ) (w : ConnectWorker) (res : WriteResult) : System :=
  { s with worker := Function.update s.worker i w }.absorb (Function.update s.pipe i w.mailbox)
    fun j side =>
      if j = i ∧ side = ConnectWorker.side then sentBy (s.pipe i) w.mailbox side res else []

/-- The next callback of a side of a mailbox. -/
def next (s : System) (i : ℕ) (side : Fin 2) : Option Frame :=
  ((s.pipe i).pinfo side).callbacks[s.handled i side]?

/-- A callback has been run. -/
def handle (s : System) (i : ℕ) (side : Fin 2) : System :=
  let counts := Function.update (s.handled i) side (s.handled i side + 1)
  { s with handled := Function.update s.handled i counts }

/-- One event. -/
def step (s : System) : Event → Except Fault System
  | .accept os sockfd ip port res => do
      let (main, hid) ← s.main.onAcceptNewConnect os sockfd ip port res
      pure { s.mainRan main res with
        dispatched := ⟨s.main.selectWorker, sockfd, hid⟩ :: s.dispatched }
  | .up os i res => do
      let w ← (s.worker i).startLoop os res
      pure { s.workerRan i w res with up := i :: s.up }
  | .evWrite i side res =>
      let (t, bytes) := (s.pipe i).onEvWrite ((s.pipe i).pinfo side).fd res
      pure (s.absorb (Function.update s.pipe i t) fun j d =>
        if j = i ∧ d = side then [bytes] else [])
  | .evRead os i side n => do
      let r := n.map fun n => (s.inFlight i (peer side)).take n
      let t ← (s.pipe i).onEvRead os ((s.pipe i).pinfo side).fd (TpipeT.readOutcome r)
      let rest := (s.inFlight i (peer side)).drop (n.getD 0)
      let inFlight := Function.update s.inFlight i
        (Function.update (s.inFlight i) (peer side) rest)
      pure { s.absorb (Function.update s.pipe i t) fun _ _ => [] with inFlight }
  | .mainCall os i mem p res =>
      match s.next i ClientMgr.side with
      | none => .ok s
      | some f => do
          let main ← s.main.onMailboxRead os mem f.1 p res
          pure ((s.mainRan main res).handle i ClientMgr.side)
  | .workerCall os i a mem p =>
      match s.next i ConnectWorker.side with
      | none => .ok s
      | some f => do
          let (w, _) ← (s.worker i).onMailboxRead os a mem f.1 p
          pure ((s.workerRan i w .again).handle i ConnectWorker.side)
  | .poll os i fd res errno wres => do
      let w ← (s.worker i).poll os fd res errno wres
      pure (s.workerRan i w wres)
  | .endTurn i => do
      let w ← (s.worker i).step .endTurn
      pure (s.workerRan i w .again)

/-! ## Runs -/

/-- No write buffer is about to leave the range of its 32-bit positions. -/
def Room (s : System) : Prop :=
  ∀ i < s.main.workerNum, ∀ side, ((s.pipe i).pinfo side).wbuf.end_ + 64 < 2 ^ 32 - 128

instance (s : System) : Decidable s.Room :=
  inferInstanceAs (Decidable (∀ i < s.main.workerNum, ∀ side,
    ((s.pipe i).pinfo side).wbuf.end_ + 64 < 2 ^ 32 - 128))

/-- The payload of the next callback of a side is in memory at `p`. -/
def Shown (s : System) (i : ℕ) (side : Fin 2) (mem : ℕ → UInt8) (p : ℕ) : Prop :=
  ∀ f ∈ s.next i side, window mem p f.2.length = f.2

instance (s : System) (i : ℕ) (side : Fin 2) (mem : ℕ → UInt8) (p : ℕ) :
    Decidable (s.Shown i side mem p) :=
  inferInstanceAs (Decidable (∀ f ∈ s.next i side, window mem p f.2.length = f.2))

/-- What the operating system promises: memory, descriptors that are `int`s, and a `::read` that
gives no more than there is, nor than it was asked for. -/
def Fair (s : System) : Event → Prop
  | .accept os sockfd _ _ _ => os.Total ∧ FieldType.int32.InRange sockfd ∧ s.Room
  | .up os i _ => os.Total ∧ i < s.main.workerNum ∧ s.Room
  | .evWrite i _ _ => i < s.main.workerNum
  | .evRead os i side n => os.Total ∧ i < s.main.workerNum ∧
      ∀ k ∈ n, k ≤ (s.inFlight i (peer side)).length ∧ k ≤ maxProtoLen
  | .mainCall os i mem p _ =>
      os.Total ∧ i < s.main.workerNum ∧ s.Room ∧ s.Shown i ClientMgr.side mem p
  | .workerCall _ i _ mem p => i < s.main.workerNum ∧ s.Shown i ConnectWorker.side mem p
  | .poll os i _ _ _ _ => os.Total ∧ i < s.main.workerNum ∧ s.Room
  | .endTurn i => i < s.main.workerNum

/-- The sockets have taken nothing but whole frames. -/
def Whole (s : System) : Prop :=
  ∀ i < s.main.workerNum, ∀ side, ∀ c ∈ s.chunks i side, (readFrames c).2 = []

instance (s : System) : Decidable s.Whole :=
  inferInstanceAs (Decidable (∀ i < s.main.workerNum, ∀ side, ∀ c ∈ s.chunks i side,
    (readFrames c).2 = []))

/-- **The threads have been started**: `init` and `start_worker` of the main thread have made the
mailboxes and initialised its sides of them, whatever the loads and the counter are, and the
constructors of the workers have initialised theirs.  No worker has reported that it is up. -/
structure Started (s : System) : Prop where
  inited : s.main.inited = true
  pos : 0 < s.main.workerNum
  le : s.main.workerNum ≤ 32
  shared : ∀ i, (s.worker i).mailbox = s.pipe i
  worker : ∀ i < s.main.workerNum, ∃ os a junk junkStack timetick maxConnect rsize wsize sv t,
    TpipeT.new os sv = .ok t ∧ sv 0 ≠ sv 1 ∧
    ConnectWorker.start os a junk junkStack timetick maxConnect rsize wsize
      (t.init ClientMgr.side true) i = .ok (s.worker i)
  chunks : ∀ i side, s.chunks i side = []
  inFlight : ∀ i side, s.inFlight i side = []
  handled : ∀ i side, s.handled i side = 0
  dispatched : s.dispatched = []
  status : ∀ i < s.main.workerNum, (s.main.workers i).status ≠ .active
  listens : s.main.listens = 0
  up : s.up = []

/-- The gate when the main thread has come back from `start_worker` and the threads `w` run: they
share the mailboxes. -/
def launch (m : ClientMgr) (w : ℕ → ConnectWorker) : System where
  main := { m with workers := fun i => { m.workers i with mailbox := (w i).mailbox } }
  worker := w
  chunks := fun _ _ => []
  inFlight := fun _ _ => []
  handled := fun _ _ => 0
  dispatched := []
  up := []

/-- **`init` and `start_worker` start the threads.** -/
lemma started_launch {junk : ℕ → ThreadWorker} {mailbox : ℕ → TpipeT} {num maxConnect : ℤ}
    {m : ClientMgr} {ready : ℕ → Bool} {w : ℕ → ConnectWorker}
    (hinit : ClientMgr.init junk mailbox num = .ok m)
    (hw : ∀ i < m.workerNum, ∃ os a junk junkStack timetick conns rsize wsize sv,
      TpipeT.new os sv = .ok (mailbox i) ∧ sv 0 ≠ sv 1 ∧
      ConnectWorker.start os a junk junkStack timetick conns rsize wsize
        ((m.startWorker maxConnect ready).1.workers i).mailbox i = .ok (w i)) :
    (launch (m.startWorker maxConnect ready).1 w).Started := by
  obtain ⟨hin, hpos, hle, hlistens, hmail⟩ := ClientMgr.init_eq_ok hinit
  have hkept : (m.startWorker maxConnect ready).1.inited = m.inited ∧
      (m.startWorker maxConnect ready).1.workerNum = m.workerNum ∧
      (m.startWorker maxConnect ready).1.listens = m.listens := by
    rw [ClientMgr.startWorker, if_neg (by simp [hin])]
    exact ⟨rfl, rfl, rfl⟩
  obtain ⟨hin', hnum', hlistens'⟩ := hkept
  have hlt : ∀ i < (launch (m.startWorker maxConnect ready).1 w).main.workerNum,
      i < m.workerNum := fun i hi => hnum' ▸ hi
  refine ⟨hin'.trans hin, hnum' ▸ hpos, hnum' ▸ hle, fun _ => rfl, fun i hi => ?_, fun _ _ => rfl,
    fun _ _ => rfl, fun _ _ => rfl, rfl, fun i hi => ?_, hlistens'.trans hlistens, rfl⟩
  · obtain ⟨os, a, junk', junkStack, timetick, conns, rsize, wsize, sv, hnew, hsv, hstart⟩ :=
      hw i (hlt i hi)
    rw [ClientMgr.startWorker_workers hin (hlt i hi), hmail] at hstart
    exact ⟨os, a, junk', junkStack, timetick, conns, rsize, wsize, sv, mailbox i, hnew, hsv,
      hstart⟩
  · show ((m.startWorker maxConnect ready).1.workers i).status ≠ .active
    rw [ClientMgr.startWorker_workers hin (hlt i hi)]
    dsimp only
    split_ifs <;> simp

/-- The states the gate reaches from `s₀` in any order of events, as long as the sockets take whole
frames. -/
inductive Run (s₀ : System) : System → Prop
  | refl : Run s₀ s₀
  | step {s s' : System} {e : Event} (h : Run s₀ s) (hwhole : s.Whole) (hf : s.Fair e)
      (hs : s.step e = .ok s') : Run s₀ s'

end System

end Gate

end Axon
