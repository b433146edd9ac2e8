import Axon.Gate.SlotOwners
import Axon.Gate.SystemLinks
import Axon.Gate.WorkersReady

/-!
# The workers of the gate are isolated

Through any interleaving of the main thread and its workers, and although every flush of a mailbox
sends again what was sent before, a connection stays with the worker it was given to.

* **`FromMain`**, **`FromWorker`** : the messages that are ever written into a mailbox.
* **`System.Settled`** : the messages, the slots and the ids of the connections.
* **`connections_isolated`** : every slot of a worker is for a connection that was given to it.
* **`main_thread_total`** : no message makes the main thread fail an assertion or look for a worker
  that is not there.
* **`no_connection_lost`** : what a worker is called back about.
-/

namespace Axon

open Library

namespace Gate

open Codegen

/-! ## The messages -/

/-- The connection with this descriptor and this id has been given to the worker `i`. -/
def Held (ds : List Dispatched) (i : ℕ) (fd hid : ℤ) : Prop :=
  ∃ d ∈ ds, d.worker = i ∧ d.fd = fd ∧ (d.hid : ℤ) = hid

/-- **What the main thread writes** to the worker `i`: that a connection is given to it, and that
one of its connections is to be closed. -/
inductive FromMain (ds : List Dispatched) (i : ℕ) : SentFrame → Prop
  | newconn {d : Dispatched} (hd : d ∈ ds) (hi : d.worker = i) (ip port : ℕ) :
      FromMain ds i (gateFrame ptCgateNewconn (ClientMgr.newconn d.fd d.hid ip port))
  | connCtrl {fd hid : ℤ} (h : Held ds i fd hid) :
      FromMain ds i (gateFrame ptConnCtrl (ClientMgr.connCtrl fd hid))

/-- **What the worker `i` writes**: that it is up, and that the peer of one of its connections is
gone. -/
inductive FromWorker (ds : List Dispatched) (up : List ℕ) (i : ℕ) : SentFrame → Prop
  | start (hi : i ∈ up) :
      FromWorker ds up i (gateFrame ptWorkerNotify (ConnectWorker.startNotify i))
  | notify {fd hid : ℤ} (h : Held ds i fd hid) :
      FromWorker ds up i (gateFrame ptConnNotify (ConnectWorker.connNotify fd hid))

section Messages

variable {ds : List Dispatched} {up : List ℕ} {i : ℕ} {f : SentFrame}

lemma Held.mono {ds' : List Dispatched} (hds : ds ⊆ ds') {fd hid : ℤ} (h : Held ds i fd hid) :
    Held ds' i fd hid := by
  obtain ⟨d, hd, h⟩ := h
  exact ⟨d, hds hd, h⟩

lemma FromMain.mono {ds' : List Dispatched} (hds : ds ⊆ ds') (h : FromMain ds i f) :
    FromMain ds' i f := by
  cases h with
  | newconn hd hi ip port => exact .newconn (hds hd) hi ip port
  | connCtrl h => exact .connCtrl (h.mono hds)

lemma FromWorker.mono {ds' : List Dispatched} {up' : List ℕ} (hds : ds ⊆ ds') (hup : up ⊆ up')
    (h : FromWorker ds up i f) : FromWorker ds' up' i f := by
  cases h with
  | start hi => exact .start (hup hi)
  | notify h => exact .notify (h.mono hds)

lemma FromMain.readable (h : FromMain ds i f) : f.Readable := by
  cases h with
  | newconn => exact gateFrame_readable (by decide)
  | connCtrl => exact gateFrame_readable (by decide)

lemma FromWorker.readable (h : FromWorker ds up i f) : f.Readable := by
  cases h with
  | start => exact gateFrame_readable (by decide)
  | notify => exact gateFrame_readable (by decide)

end Messages

/-! ## The invariant -/

/-- **The workers that are taken for active have announced themselves**, and `listen()` has not been
called before all of them had. -/
structure Ready (m : ClientMgr) (up : List ℕ) : Prop where
  active : ∀ i < m.workerNum, (m.workers i).status = .active → i ∈ up
  listens : 0 < m.listens → ∀ i < m.workerNum, (m.workers i).status = .active

namespace Ready

variable {m : ClientMgr} {up : List ℕ}

lemma mono {up' : List ℕ} (h : Ready m up) (hup : up ⊆ up') : Ready m up' :=
  ⟨fun i hi hstatus => hup (h.active i hi hstatus), h.listens⟩

lemma congr {m' : ClientMgr} (h : Ready m up) (hnum : m'.workerNum = m.workerNum)
    (hstatus : ∀ i, (m'.workers i).status = (m.workers i).status)
    (hlistens : m'.listens = m.listens) : Ready m' up where
  active i hi hactive := h.active i (hnum ▸ hi) ((hstatus i).symm.trans hactive)
  listens hpos i hi := (hstatus i).trans (h.listens (hlistens ▸ hpos) i (hnum ▸ hi))

/-- The counter for ids does not matter. -/
lemma withHid (h : Ready m up) (hid : ℕ) : Ready { m with hid := hid } up :=
  h.congr rfl (fun _ => rfl) rfl

/-- A write to a mailbox does not matter. -/
lemma withMailbox (h : Ready m up) (idx : ℕ) (t : TpipeT) : Ready (m.withMailbox idx t) up := by
  refine h.congr rfl (fun i => ?_) rfl
  by_cases hidx : i = idx
  · subst hidx
    simp [ClientMgr.withMailbox]
  · simp [ClientMgr.withMailbox, hidx]

/-- A worker that has announced itself is reported up. -/
lemma reported (h : Ready m up) {i : ℕ} (hi : i ∈ up) : Ready (m.reported i) up := by
  have hactive : ∀ j < m.workerNum, ((Function.update m.workers i
      { m.workers i with status := WrkStatus.active }) j).status = .active → j ∈ up := by
    intro j hj hstatus
    by_cases hji : j = i
    · rw [hji]
      exact hi
    · rw [Function.update_of_ne hji] at hstatus
      exact h.active j hj hstatus
  rw [ClientMgr.reported]
  dsimp only
  split_ifs with hall
  · exact ⟨hactive, fun _ => hall⟩
  · refine ⟨hactive, fun hpos j hj => ?_⟩
    by_cases hji : j = i
    · simp [hji]
    · dsimp only
      rw [Function.update_of_ne hji]
      exact h.listens hpos j hj

end Ready

/-- The id of a connection names its worker, on its way back as well. -/
structure Routed (num : ℕ) (d : Dispatched) : Prop where
  lt : d.worker < num
  thr : thrIdxFromHid d.hid = d.worker
  fd : FieldType.int32.InRange d.fd
  hid : FieldType.int32.InRange d.hid
  uhid : FieldType.uint32.InRange d.hid

namespace System

/-- **The contents**: the messages in the mailboxes, what the slots of the workers are for, and the
ids given out. -/
structure Settled (s : System) (W : ℕ → Fin 2 → List SentFrame) : Prop where
  main : ∀ i < s.main.workerNum, ∀ f ∈ W i ClientMgr.side, FromMain s.dispatched i f
  worker : ∀ i < s.main.workerNum, ∀ f ∈ W i ConnectWorker.side,
    FromWorker s.dispatched s.up i f
  slot : ∀ i < s.main.workerNum, ∀ k, ((s.worker i).container.connects k).mgr = none ∨
    Held s.dispatched i ((s.worker i).container.connects k).fd
      ((s.worker i).container.connects k).hid
  idx : ∀ i < s.main.workerNum, (s.worker i).idx = i
  routed : ∀ d ∈ s.dispatched, Routed s.main.workerNum d
  posted : ∀ d ∈ s.dispatched, ∃ ip port,
    gateFrame ptCgateNewconn (ClientMgr.newconn d.fd d.hid ip port) ∈ W d.worker ClientMgr.side
  ready : Ready s.main s.up

lemma side_ne : ConnectWorker.side ≠ ClientMgr.side := by decide

lemma peer_main : peer ClientMgr.side = ConnectWorker.side := by decide

section Steps

variable {s : System} {W : ℕ → Fin 2 → List SentFrame} {B : ℕ → Fin 2 → List UInt8}

/-- The slots of a worker whose owners have not changed. -/
lemma Settled.slot_of_same (hc : s.Settled W) {i : ℕ} (hi : i < s.main.workerNum)
    {w : ConnectWorker} (hsame : ConnectWorker.SameOwners (s.worker i) w) (k : ℕ) :
    (w.container.connects k).mgr = none ∨
      Held s.dispatched i (w.container.connects k).fd (w.container.connects k).hid := by
  have howner := hsame.owner k
  have hmgr : (w.container.connects k).mgr = ((s.worker i).container.connects k).mgr :=
    congrArg Prod.fst howner
  have hfd : (w.container.connects k).fd = ((s.worker i).container.connects k).fd :=
    congrArg (fun o => o.2.1) howner
  have hhid : (w.container.connects k).hid = ((s.worker i).container.connects k).hid :=
    congrArg (fun o => o.2.2) howner
  rw [hmgr, hfd, hhid]
  exact hc.slot i hi k

/-- A worker has run: its slots are still for its own connections, and its message, if it sent one,
is one of its messages. -/
lemma Settled.workerRan (hc : s.Settled W) {i : ℕ} {w : ConnectWorker} {res : WriteResult}
    {W' : ℕ → Fin 2 → List SentFrame} {ups : List ℕ} (hups : s.up ⊆ ups)
    (hsub : ∀ j d, W j d ⊆ W' j d) (hidx : w.idx = (s.worker i).idx)
    (hslot : ∀ k, (w.container.connects k).mgr = none ∨
      Held s.dispatched i (w.container.connects k).fd (w.container.connects k).hid)
    (hW : ∀ j d, ∀ f ∈ W' j d, f ∈ W j d ∨
      (j = i ∧ d = ConnectWorker.side ∧ FromWorker s.dispatched ups i f)) :
    ({ s.workerRan i w res with up := ups } : System).Settled W' where
  main j hj f hf := by
    rcases hW j _ f hf with hf | ⟨-, hd, -⟩
    · exact hc.main j hj f hf
    · exact absurd hd.symm side_ne
  worker j hj f hf := by
    rcases hW j _ f hf with hf | ⟨rfl, -, hf⟩
    · exact (hc.worker j hj f hf).mono (List.Subset.refl _) hups
    · exact hf
  slot j hj k := by
    show ((Function.update s.worker i w j).container.connects k).mgr = none ∨ _
    by_cases hji : j = i
    · subst hji
      simpa [System.workerRan, System.absorb] using hslot k
    · simpa [System.workerRan, System.absorb, hji] using hc.slot j hj k
  idx j hj := by
    show (Function.update s.worker i w j).idx = j
    by_cases hji : j = i
    · subst hji
      rw [Function.update_self, hidx]
      exact hc.idx j hj
    · rw [Function.update_of_ne hji]
      exact hc.idx j hj
  routed := hc.routed
  posted d hd := by
    obtain ⟨ip, port, hmem⟩ := hc.posted d hd
    exact ⟨ip, port, hsub _ _ hmem⟩
  ready := (hc.ready.mono hups).congr rfl (fun _ => rfl) rfl

/-- The main thread has run, and has given these connections to the workers so far. -/
lemma Settled.mainRan (hc : s.Settled W) {m : ClientMgr} {res : WriteResult}
    {W' : ℕ → Fin 2 → List SentFrame} {ds : List Dispatched}
    (hnum : m.workerNum = s.main.workerNum) (hds : s.dispatched ⊆ ds)
    (hready : Ready m s.up) (hrouted : ∀ d ∈ ds, Routed s.main.workerNum d)
    (hposted : ∀ d ∈ ds, ∃ ip port, gateFrame ptCgateNewconn
      (ClientMgr.newconn d.fd d.hid ip port) ∈ W' d.worker ClientMgr.side)
    (hW : ∀ j d, ∀ f ∈ W' j d, f ∈ W j d ∨ (d = ClientMgr.side ∧ FromMain ds j f)) :
    ({ s.mainRan m res with dispatched := ds } : System).Settled W' where
  main j hj f hf := by
    rcases hW j _ f hf with hf | ⟨-, hf⟩
    · exact (hc.main j (hnum ▸ hj) f hf).mono hds
    · exact hf
  worker j hj f hf := by
    rcases hW j _ f hf with hf | ⟨hd, -⟩
    · exact (hc.worker j (hnum ▸ hj) f hf).mono hds (List.Subset.refl _)
    · exact absurd hd side_ne
  slot j hj k := (hc.slot j (hnum ▸ hj) k).imp_right fun hheld => hheld.mono hds
  idx j hj := hc.idx j (hnum ▸ hj)
  routed d hd := by
    show Routed m.workerNum d
    rw [hnum]
    exact hrouted d hd
  posted := hposted
  ready := ⟨hready.active, hready.listens⟩

/-- What has been posted stays posted. -/
lemma Settled.posted_mono (hc : s.Settled W) {W' : ℕ → Fin 2 → List SentFrame}
    (hsub : ∀ j d, W j d ⊆ W' j d) {d : Dispatched} (hd : d ∈ s.dispatched) :
    ∃ ip port, gateFrame ptCgateNewconn (ClientMgr.newconn d.fd d.hid ip port)
      ∈ W' d.worker ClientMgr.side := by
  obtain ⟨ip, port, hmem⟩ := hc.posted d hd
  exact ⟨ip, port, hsub _ _ hmem⟩

/-- A linked gate with the connections counted differently. -/
lemma Linked.withDispatched (h : s.Linked W B) (ds : List Dispatched) :
    ({ s with dispatched := ds } : System).Linked W B :=
  ⟨h.inited, h.pos, h.le, h.shared, h.carries, h.stream, h.taken⟩

lemma Linked.withUp (h : s.Linked W B) (up : List ℕ) :
    ({ s with up := up } : System).Linked W B :=
  ⟨h.inited, h.pos, h.le, h.shared, h.carries, h.stream, h.taken⟩

lemma Settled.handle (hc : s.Settled W) (i : ℕ) (side : Fin 2) : (s.handle i side).Settled W :=
  ⟨hc.main, hc.worker, hc.slot, hc.idx, hc.routed, hc.posted,
    hc.ready.congr rfl (fun _ => rfl) rfl⟩

/-- **A new connection** is given to the worker its id names. -/
lemma accept_returns (h : s.Linked W B) (hc : s.Settled W) {os : Libc} {sockfd : ℤ}
    (hf : os.Total) (hfd : FieldType.int32.InRange sockfd) (hroom : s.Room) (ip port : ℕ)
    (res : WriteResult) :
    ∃ s' W', s.step (.accept os sockfd ip port res) = .ok s' ∧ s'.Linked W' B ∧ s'.Settled W' ∧
      s'.dispatched = ⟨s.main.selectWorker, sockfd,
        ClientMgr.makeHid s.main.selectWorker s.main.nextHid⟩ :: s.dispatched := by
  have hlt := ClientMgr.selectWorker_lt h.pos
  have hs : s.main.selectWorker < 32 := Nat.lt_of_lt_of_le hlt h.le
  obtain ⟨hint, huint⟩ := inRange_makeHid hs s.main.nextHid_lt
  set hid := ClientMgr.makeHid s.main.selectWorker s.main.nextHid with hhid
  obtain ⟨t, hpost, hlinked⟩ := h.post (m := { s.main with hid := s.main.nextHid }) hlt hroom hf
    (by decide) rfl rfl rfl ptCgateNewconn (ClientMgr.newconn sockfd hid ip port) res
  have hstep : s.main.onAcceptNewConnect os sockfd ip port res = .ok
      (({ s.main with hid := s.main.nextHid } : ClientMgr).withMailbox s.main.selectWorker t,
        hid) := by
    rw [ClientMgr.onAcceptNewConnect, rtAssert_of_pos h.inited, ok_bind]
    dsimp only
    rw [show ({ s.main with hid := s.main.nextHid } : ClientMgr).selectWorker =
      s.main.selectWorker from rfl, ← hhid, hpost]
    rfl
  refine ⟨_, _, by rw [step, hstep]; rfl, hlinked.withDispatched _, ?_, rfl⟩
  refine hc.mainRan (by rfl) (List.subset_cons_self _ _)
    ((hc.ready.withHid _).withMailbox _ _) (fun d hd => ?_) (fun d hd => ?_) fun j d f hf => ?_
  · rcases List.mem_cons.mp hd with rfl | hd
    · exact ⟨hlt, thrIdxFromHid_makeHid hs s.main.nextHid_lt, hfd, hint, huint⟩
    · exact hc.routed d hd
  · rcases List.mem_cons.mp hd with rfl | hd
    · refine ⟨ip, port, ?_⟩
      rw [addFrame_self]
      exact List.mem_append_right _ (List.mem_singleton_self _)
    · exact hc.posted_mono (fun j d => (prefix_addFrame W _ j d).subset) hd
  · refine (mem_addFrame W _ hf).imp_right ?_
    rintro ⟨rfl, rfl, rfl⟩
    exact ⟨rfl, .newconn (d := ⟨s.main.selectWorker, sockfd, hid⟩) List.mem_cons_self rfl ip port⟩

/-- **A callback of the main thread** returns: the worker is reported up, or the message about the
connection is answered to the worker it came from. -/
lemma mainCall_returns (h : s.Linked W B) (hc : s.Settled W) (hwhole : s.Whole) {os : Libc}
    {i : ℕ} {mem : ℕ → UInt8} {p : ℕ} (ht : os.Total) (hi : i < s.main.workerNum)
    (hroom : s.Room) (hshown : s.Shown i ClientMgr.side mem p) (res : WriteResult) :
    ∃ s' W', s.step (.mainCall os i mem p res) = .ok s' ∧ s'.Linked W' B ∧ s'.Settled W' := by
  rw [step]
  cases hnext : s.next i ClientMgr.side with
  | none => exact ⟨s, W, rfl, h, hc⟩
  | some f =>
      obtain ⟨g, hg, rfl⟩ := h.next_written hwhole hi
        (fun g hg => (hc.worker i hi g (peer_main ▸ hg)).readable) hnext
      have hdel : Delivered g mem (SentFrame.header g) p := ⟨rfl, hshown _ hnext⟩
      have hfrom := hc.worker i hi g (peer_main ▸ hg)
      dsimp only
      cases hfrom with
      | start hup =>
          have hmail : ∀ j, ((s.main.reported i).workers j).mailbox = s.pipe j :=
            s.main.reported_mailbox i
          rw [onMailboxRead_started hi h.le hdel res, ok_bind]
          refine ⟨_, W, rfl, (h.mainRan_silent hmail (s.main.reported_inited i)
            (s.main.sameCounts_reported i).workerNum res).handle i _, Settled.handle ?_ i _⟩
          exact hc.mainRan (s.main.sameCounts_reported i).workerNum (List.Subset.refl _)
            (hc.ready.reported hup) hc.routed hc.posted fun j d f hf => Or.inl hf
      | notify hheld =>
          obtain ⟨d, hd, rfl, rfl, rfl⟩ := hheld
          have hrouted := hc.routed d hd
          have hanswer := (answered hrouted.fd hrouted.hid hrouted.thr hrouted.lt s.main os mem _ p
            res rfl hdel).1
          obtain ⟨t, hpost, hlinked⟩ := h.post hi hroom ht (by decide) rfl rfl rfl ptConnCtrl
            (ClientMgr.connCtrl d.fd d.hid) res
          rw [hanswer, hpost, ok_bind]
          refine ⟨_, _, rfl, hlinked.handle _ _, Settled.handle ?_ _ _⟩
          refine hc.mainRan rfl (List.Subset.refl _) (hc.ready.withMailbox _ _) hc.routed
            (fun d hd => hc.posted_mono (fun j d => (prefix_addFrame W _ j d).subset) hd)
            fun j e f hf => ?_
          refine (mem_addFrame W _ hf).imp_right ?_
          rintro ⟨rfl, rfl, rfl⟩
          exact ⟨rfl, .connCtrl ⟨d, hd, rfl, rfl, rfl⟩⟩

/-- The mailboxes have been flushed or read. -/
lemma Settled.absorb (hc : s.Settled W) (t : ℕ → TpipeT) (cs : ℕ → Fin 2 → List (List UInt8)) :
    (s.absorb t cs).Settled W :=
  ⟨hc.main, hc.worker, hc.slot, hc.idx, hc.routed, hc.posted,
    hc.ready.congr rfl (fun _ => rfl) rfl⟩

/-- What a worker calls `new_connect` with for a message of the main thread: a connection given to
it, or nothing. -/
lemma newconnArgs_fromMain (hc : s.Settled W) {i : ℕ} {g : SentFrame}
    (hg : FromMain s.dispatched i g) {mem : ℕ → UInt8} {p : ℕ}
    (hdel : Delivered g mem (SentFrame.header g) p) :
    ConnectWorker.newconnArgs mem (SentFrame.header g) p = none ∨ ∃ fd hid ip port,
      ConnectWorker.newconnArgs mem (SentFrame.header g) p = some (fd, hid, ip, port) ∧
      Held s.dispatched i fd hid := by
  cases hg with
  | @newconn d hd hi ip port =>
      have hrouted := hc.routed d hd
      have hfd : (ClientMgr.newconn d.fd d.hid ip port).member .fd = d.fd := hrouted.fd
      have hhid : (ClientMgr.newconn d.fd d.hid ip port).member .hid = d.hid := hrouted.uhid
      rw [newconnArgs_delivered hdel, hfd, hhid, hrouted.hid]
      exact Or.inr ⟨_, _, _, _, rfl, d, hd, hi, rfl, rfl⟩
  | connCtrl h =>
      refine Or.inl ?_
      rw [ConnectWorker.newconnArgs, hdel.worker_dispatch (by decide) (by decide)]
      exact if_neg (by decide)

/-- **A callback of a worker** places a connection that was given to it, or does nothing. -/
lemma workerCall_step (h : s.Linked W B) (hc : s.Settled W) (hwhole : s.Whole) {s' : System}
    {os : Libc} {i a : ℕ} {mem : ℕ → UInt8} {p : ℕ} (hi : i < s.main.workerNum)
    (hshown : s.Shown i ConnectWorker.side mem p)
    (hs : s.step (.workerCall os i a mem p) = .ok s') : s'.Linked W B ∧ s'.Settled W := by
  rw [step] at hs
  cases hnext : s.next i ConnectWorker.side with
  | none =>
      rw [hnext] at hs
      obtain rfl := Except.ok.inj hs
      exact ⟨h, hc⟩
  | some f =>
      obtain ⟨g, hg, rfl⟩ := h.next_written hwhole hi
        (fun g hg => (hc.main i hi g hg).readable) hnext
      have hdel : Delivered g mem (SentFrame.header g) p := ⟨rfl, hshown _ hnext⟩
      rw [hnext] at hs
      dsimp only at hs
      obtain ⟨⟨w, slot⟩, hread, hs⟩ := bind_eq_ok hs
      obtain rfl := Except.ok.inj hs
      have hran : w.mailbox = (s.worker i).mailbox ∧ w.idx = (s.worker i).idx ∧
          ∀ k, (w.container.connects k).mgr = none ∨
            Held s.dispatched i (w.container.connects k).fd (w.container.connects k).hid := by
        rw [ConnectWorker.onMailboxRead] at hread
        rcases newconnArgs_fromMain hc (hc.main i hi g hg) hdel with
          hargs | ⟨fd, hid, ip, port, hargs, hheld⟩
        · rw [hargs] at hread
          obtain ⟨rfl, -⟩ := Prod.mk.inj (Except.ok.inj hread)
          exact ⟨rfl, rfl, hc.slot i hi⟩
        · rw [hargs] at hread
          obtain ⟨hmail, hidx, howner⟩ := ConnectWorker.newConnect_owner hread
          refine ⟨hmail, hidx, fun k => ?_⟩
          rcases howner k with hk | hk
          · have hmgr := congrArg Prod.fst hk
            have hfd := congrArg (fun o => o.2.1) hk
            have hhid := congrArg (fun o => o.2.2) hk
            simp only [Connect.owner] at hmgr hfd hhid
            rw [hmgr, hfd, hhid]
            exact hc.slot i hi k
          · have hfd := congrArg (fun o => o.2.1) hk
            have hhid := congrArg (fun o => o.2.2) hk
            simp only [Connect.owner] at hfd hhid
            rw [hfd, hhid]
            exact Or.inr hheld
      obtain ⟨hmail, hidx, hslot⟩ := hran
      refine ⟨(h.workerRan_silent (hmail.trans (h.shared i)) _).handle i _,
        Settled.handle (hc.workerRan (List.Subset.refl _) (fun _ _ => List.Subset.refl _) hidx hslot
          fun j d f hf => Or.inl hf) i _⟩

/-- **A readable descriptor** of a worker: at most one report, about one of its connections. -/
lemma poll_step (h : s.Linked W B) (hc : s.Settled W) {s' : System} {os : Libc} {i : ℕ} {fd : ℤ}
    {res : ReadResult} {errno : Bool} {wres : WriteResult} (ht : os.Total)
    (hi : i < s.main.workerNum) (hroom : s.Room)
    (hs : s.step (.poll os i fd res errno wres) = .ok s') :
    ∃ W', s'.Linked W' B ∧ s'.Settled W' := by
  obtain ⟨w, hpoll, hs⟩ := bind_eq_ok hs
  obtain rfl := Except.ok.inj hs
  obtain ⟨hsame, hmail | ⟨k, hmgr, w₁, w₂, hw₁, hsend, hw₂⟩⟩ := ConnectWorker.poll_owner hpoll
  · exact ⟨W, h.workerRan_silent (hmail.trans (h.shared i)) _,
      hc.workerRan (List.Subset.refl _) (fun _ _ => List.Subset.refl _) hsame.idx
        (hc.slot_of_same hi hsame) fun j d f hf => Or.inl hf⟩
  · obtain ⟨t, rfl, hlinked⟩ := h.report hi hroom ht (by decide) (hw₁.trans (h.shared i))
      ptConnNotify _ hsend
    refine ⟨_, hlinked w hw₂, hc.workerRan (List.Subset.refl _)
      (fun j d => (prefix_addFrame W _ j d).subset) hsame.idx (hc.slot_of_same hi hsame)
      fun j d f hf => ?_⟩
    refine (mem_addFrame W _ hf).imp_right ?_
    rintro ⟨rfl, rfl, rfl⟩
    exact ⟨rfl, rfl, .notify ((hc.slot j hi k).resolve_left hmgr)⟩

/-- The start of a worker. -/
lemma up_step (h : s.Linked W B) (hc : s.Settled W) {s' : System} {os : Libc} {i : ℕ}
    {res : WriteResult} (ht : os.Total) (hi : i < s.main.workerNum) (hroom : s.Room)
    (hs : s.step (.up os i res) = .ok s') : ∃ W', s'.Linked W' B ∧ s'.Settled W' := by
  obtain ⟨w, hsend, hs⟩ := bind_eq_ok hs
  obtain rfl := Except.ok.inj hs
  obtain ⟨t, rfl, hlinked⟩ := h.report hi hroom ht (by decide) (h.shared i) ptWorkerNotify _ hsend
  refine ⟨_, (hlinked _ rfl).withUp _, hc.workerRan (List.subset_cons_self _ _)
    (fun j d => (prefix_addFrame W _ j d).subset) rfl (hc.slot i hi) fun j d f hf => ?_⟩
  refine (mem_addFrame W _ hf).imp_right ?_
  rintro ⟨rfl, rfl, rfl⟩
  refine ⟨rfl, rfl, ?_⟩
  rw [hc.idx j hi]
  exact .start List.mem_cons_self

/-- **Every event** keeps the invariant. -/
lemma step_settled (h : s.Linked W B) (hc : s.Settled W) (hwhole : s.Whole) {s' : System}
    {e : Event} (hf : s.Fair e) (hs : s.step e = .ok s') :
    ∃ W' B', s'.Linked W' B' ∧ s'.Settled W' := by
  cases e with
  | accept os sockfd ip port res =>
      obtain ⟨s₁, W', hstep, hl, hset, -⟩ := accept_returns h hc hf.1 hf.2.1 hf.2.2 ip port res
      obtain rfl := Except.ok.inj (hstep.symm.trans hs)
      exact ⟨W', B, hl, hset⟩
  | up os i res =>
      obtain ⟨W', hl, hset⟩ := up_step h hc hf.1 hf.2.1 hf.2.2 hs
      exact ⟨W', B, hl, hset⟩
  | evWrite i side res =>
      refine ⟨W, B, h.evWrite hf hs, ?_⟩
      obtain rfl := Except.ok.inj hs
      exact hc.absorb _ _
  | evRead os i side n =>
      obtain ⟨B', hl⟩ := h.evRead hf.1 hf.2.1 (fun k hk => (hf.2.2 k hk).2) hs
      refine ⟨W, B', hl, ?_⟩
      obtain ⟨t, -, hs⟩ := bind_eq_ok hs
      obtain rfl := Except.ok.inj hs
      exact ⟨hc.main, hc.worker, hc.slot, hc.idx, hc.routed, hc.posted,
        hc.ready.congr rfl (fun _ => rfl) rfl⟩
  | mainCall os i mem p res =>
      obtain ⟨s₁, W', hstep, hl, hset⟩ :=
        mainCall_returns h hc hwhole hf.1 hf.2.1 hf.2.2.1 hf.2.2.2 res
      obtain rfl := Except.ok.inj (hstep.symm.trans hs)
      exact ⟨W', B, hl, hset⟩
  | workerCall os i a mem p =>
      obtain ⟨hl, hset⟩ := workerCall_step h hc hwhole hf.1 hf.2 hs
      exact ⟨W, B, hl, hset⟩
  | poll os i fd res errno wres =>
      obtain ⟨W', hl, hset⟩ := poll_step h hc hf.1 hf.2.1 hf.2.2 hs
      exact ⟨W', B, hl, hset⟩
  | endTurn i =>
      obtain ⟨w, hend, hs⟩ := bind_eq_ok hs
      obtain ⟨⟨poller, log⟩, -, hend⟩ := bind_eq_ok hend
      obtain rfl := Except.ok.inj hend
      obtain rfl := Except.ok.inj hs
      refine ⟨W, B, h.workerRan_silent ?_ _,
        hc.workerRan (List.Subset.refl _) (fun _ _ => List.Subset.refl _) rfl (hc.slot i hf)
          fun j d f hf => Or.inl hf⟩
      exact h.shared i

end Steps

/-- A gate that has just been started is settled: nothing has been written, and no slot used. -/
lemma Started.settled {s : System} (h : s.Started) : s.Settled fun _ _ => [] := by
  have hworker : ∀ i < s.main.workerNum, (s.worker i).idx = i ∧
      ∀ k, ((s.worker i).container.connects k).mgr = none := by
    intro i hi
    obtain ⟨os, a, junk, junkStack, timetick, maxConnect, rsize, wsize, sv, t, -, -, hstart⟩ :=
      h.worker i hi
    obtain ⟨p, p', v, -, -, hw⟩ := ConnectWorker.start_eq_ok hstart
    rw [hw]
    refine ⟨rfl, fun k => ?_⟩
    rw [ConnectContainer.new]
    dsimp only
    split_ifs
    · rfl
    · rfl
  refine ⟨fun i _ f hf => absurd hf List.not_mem_nil, fun i _ f hf => absurd hf List.not_mem_nil,
    fun i hi k => Or.inl ((hworker i hi).2 k), fun i hi => (hworker i hi).1, fun d hd => ?_,
    fun d hd => ?_, fun i hi hactive => absurd hactive (h.status i hi), fun hpos => ?_⟩
  · rw [h.dispatched] at hd
    exact absurd hd List.not_mem_nil
  · rw [h.dispatched] at hd
    exact absurd hd List.not_mem_nil
  · rw [h.listens] at hpos
    exact absurd hpos (Nat.lt_irrefl 0)

/-- A run goes on with an event. -/
lemma Run.next {s₀ s s' : System} {e : Event} (h : Run s₀ s) (hs : s.step e = .ok s')
    (hwhole : s.Whole) (hf : s.Fair e) : Run s₀ s' := .step h hwhole hf hs

/-- **Every state of every run** is linked and settled. -/
lemma Run.settled {s₀ s : System} (hstart : s₀.Started) (h : Run s₀ s) :
    ∃ W B, s.Linked W B ∧ s.Settled W := by
  induction h with
  | refl => exact ⟨_, _, hstart.linked, hstart.settled⟩
  | step _ hwhole hf hs ih =>
      obtain ⟨W, B, hl, hset⟩ := ih
      exact step_settled hl hset hwhole hf hs

end System

/-- A gate with one worker that has just been started. -/
def someGate (w : ConnectWorker) : System where
  main := ⟨1, true, 1, fun _ => ⟨0, 100, .start, w.mailbox⟩, 0⟩
  worker := fun _ => w
  chunks := fun _ _ => []
  inFlight := fun _ _ => []
  handled := fun _ _ => 0
  dispatched := []
  up := []

/-- The worker, with four slots. -/
def someGateWorker : Except Fault ConnectWorker := do
  let t ← TpipeT.new zeroLibc TpipeT.someFds
  ConnectWorker.start zeroLibc 0 (fun _ => ⟨0, .empty, none⟩) (fun _ => 0) 100 4 64 256
    (t.init ClientMgr.side true) 0

lemma started_someGate {w : ConnectWorker} (h : someGateWorker = .ok w) :
    (someGate w).Started ∧ System.Run (someGate w) (someGate w) := by
  obtain ⟨t, hnew, h⟩ := bind_eq_ok h
  have heq : someGate w = System.launch (ClientMgr.startWorker
      ⟨1, true, 1, fun _ => ⟨0, 100, .start, t⟩, 0⟩ 0 fun _ => true).1 fun _ => w := by
    rw [someGate, System.launch]
    congr 2
    funext i
    by_cases hi : i < 1
    · rw [ClientMgr.startWorker_workers rfl hi]
      simp
    · simp [ClientMgr.startWorker, show i ≠ 0 from fun h0 => hi (h0 ▸ Nat.one_pos)]
  refine ⟨?_, .refl⟩
  rw [heq]
  refine System.started_launch (show ClientMgr.init (fun _ => ⟨0, 100, .start, t⟩) (fun _ => t) 1 =
    .ok _ from rfl) fun i hi => ?_
  obtain rfl : i = 0 := Nat.lt_one_iff.mp hi
  exact ⟨_, _, _, _, _, _, _, _, _, hnew, by decide, h⟩

/-- **Workers are isolated.**  In every state the gate reaches, through any interleaving of its
threads: what a slot of a worker that has been used is for, a descriptor and an id, is a connection
that was given to that worker; its id names the worker; and no slot of another worker has the same
id. -/
theorem connections_isolated {s₀ s : System} (hstart : s₀.Started) (h : System.Run s₀ s) {i k : ℕ}
    (hi : i < s.main.workerNum) (hused : ((s.worker i).container.connects k).mgr ≠ none) :
    Held s.dispatched i ((s.worker i).container.connects k).fd
        ((s.worker i).container.connects k).hid ∧
      thrIdxFromHid ((s.worker i).container.connects k).hid = i ∧
      ∀ j < s.main.workerNum, j ≠ i → ∀ l, ((s.worker j).container.connects l).mgr ≠ none →
        ((s.worker j).container.connects l).hid ≠ ((s.worker i).container.connects k).hid := by
  obtain ⟨W, B, -, hset⟩ := h.settled hstart
  have hthr : ∀ {j fd hid}, Held s.dispatched j fd hid → thrIdxFromHid hid = j := by
    rintro j fd hid ⟨d, hd, rfl, -, rfl⟩
    exact (hset.routed d hd).thr
  have hheld := (hset.slot i hi k).resolve_left hused
  refine ⟨hheld, hthr hheld, fun j hj hji l hl heq => ?_⟩
  have hother := hthr ((hset.slot j hj l).resolve_left hl)
  rw [heq, hthr hheld] at hother
  exact hji (by exact_mod_cast hother.symm)

/-- A socket is accepted, and the worker called back about it. -/
theorem connections_isolated_one : ∃ s₀ s, s₀.Started ∧ System.Run s₀ s ∧
    ((s.worker 0).container.connects 0).fd = 2 ∧
    thrIdxFromHid ((s.worker 0).container.connects 0).hid = (0 : ℕ) := by
  obtain ⟨hstart, hrun⟩ := started_someGate (show someGateWorker = .ok _ from rfl)
  have h₁ := hrun.next (e := .accept zeroLibc 2 0x7F000001 80 (.accept 24)) rfl (by decide)
    ⟨zeroLibc_total, by decide, by decide⟩
  have h₂ := h₁.next (e := .evRead zeroLibc 0 1 (some 24)) rfl (by decide)
    ⟨zeroLibc_total, by decide, by decide⟩
  have h₃ := h₂.next (e := .workerCall zeroLibc 0 0 (byteAt (gateFrame ptCgateNewconn
    (ClientMgr.newconn 2 2 0x7F000001 80)).2) 0) rfl (by decide) ⟨by decide, by decide⟩
  obtain ⟨-, hthr, -⟩ := connections_isolated (i := 0) (k := 0) hstart h₃ (by decide) (by decide)
  exact ⟨_, _, hstart, h₃, by decide, hthr⟩

/-- **The main thread never fails.**  In every state the gate reaches: the main thread has told a
worker nothing but about connections given to it; whatever callback is next, it returns, without an
assertion that fails or a worker that is not there; and an accept returns and gives the connection
to a worker that its id names. -/
theorem main_thread_total {s₀ s : System} (hstart : s₀.Started) (h : System.Run s₀ s)
    (hwhole : s.Whole) :
    (∀ i < s.main.workerNum, ∃ fs : List SentFrame,
      s.main.posted i = fs.flatMap SentFrame.encode ∧
      ∀ f ∈ fs, FromMain s.dispatched i f) ∧
    (∀ os i mem p res, s.Fair (.mainCall os i mem p res) →
      ∃ s', s.step (.mainCall os i mem p res) = .ok s') ∧
    ∀ os sockfd ip port res, s.Fair (.accept os sockfd ip port res) → ∃ s' d,
      s.step (.accept os sockfd ip port res) = .ok s' ∧ s'.dispatched = d :: s.dispatched ∧
      d.fd = sockfd ∧ d.worker < s.main.workerNum ∧ thrIdxFromHid d.hid = d.worker := by
  obtain ⟨W, B, hl, hset⟩ := h.settled hstart
  refine ⟨fun i hi => ?_, fun os i mem p res hf => ?_, fun os sockfd ip port res hf => ?_⟩
  · exact ⟨W i ClientMgr.side, ((hl.carries i hi).wbuf ClientMgr.side).bytes_eq, hset.main i hi⟩
  · obtain ⟨s', W', hs, -⟩ :=
      System.mainCall_returns hl hset hwhole hf.1 hf.2.1 hf.2.2.1 hf.2.2.2 res
    exact ⟨s', hs⟩
  · obtain ⟨s', W', hs, -, hset', hds⟩ :=
      System.accept_returns hl hset hf.1 hf.2.1 hf.2.2 ip port res
    have hlt := ClientMgr.selectWorker_lt hl.pos
    exact ⟨s', _, hs, hds, rfl, hlt, thrIdxFromHid_makeHid (Nat.lt_of_lt_of_le hlt hl.le)
      s.main.nextHid_lt⟩

/-- A worker announces itself, and the main thread is called back about it. -/
theorem main_thread_total_up : ∃ s₀ s mem, s₀.Started ∧ System.Run s₀ s ∧ s.Whole ∧
    (s.next 0 ClientMgr.side).isSome ∧
      ∃ s', s.step (.mainCall zeroLibc 0 mem 0 .again) = .ok s' := by
  obtain ⟨hstart, hrun⟩ := started_someGate (show someGateWorker = .ok _ from rfl)
  have h₁ := hrun.next (e := .up zeroLibc 0 (.accept 14)) rfl (by decide)
    ⟨zeroLibc_total, by decide, by decide⟩
  have h₂ := h₁.next (e := .evRead zeroLibc 0 0 (some 14)) rfl (by decide)
    ⟨zeroLibc_total, by decide, by decide⟩
  obtain ⟨-, htotal, -⟩ := main_thread_total hstart h₂ (by decide)
  refine ⟨_, _, byteAt (gateFrame ptWorkerNotify (ConnectWorker.startNotify 0)).2, hstart, h₂,
    by decide, by decide, ?_⟩
  exact htotal _ _ _ _ _ ⟨zeroLibc_total, by decide, by decide, by decide⟩

/-- **No connection is lost.**  In every state the gate reaches, a worker has been called back about
nothing but what the main thread has told it; and once a flush of its mailbox has taken everything
and the worker has read it, it has been called back about every connection given to it. -/
theorem no_connection_lost {s₀ s : System} (hstart : s₀.Started) (h : System.Run s₀ s)
    (hwhole : s.Whole) {i : ℕ} (hi : i < s.main.workerNum) :
    (∀ f ∈ ((s.pipe i).pinfo ConnectWorker.side).callbacks,
      ∃ g, FromMain s.dispatched i g ∧ f = (SentFrame.header g, g.2)) ∧
    ((s.chunks i ClientMgr.side).getLast? = some (s.main.posted i) →
      s.inFlight i ClientMgr.side = [] → ∀ d ∈ s.dispatched, d.worker = i → ∃ g ip port,
        g = gateFrame ptCgateNewconn (ClientMgr.newconn d.fd d.hid ip port) ∧
        (SentFrame.header g, g.2) ∈ ((s.pipe i).pinfo ConnectWorker.side).callbacks) := by
  obtain ⟨W, B, hl, hset⟩ := h.settled hstart
  have hread : ∀ g ∈ W i ClientMgr.side, g.Readable := fun g hg => (hset.main i hi g hg).readable
  have hcb : ((s.pipe i).pinfo ConnectWorker.side).callbacks =
      (readFrames (B i ClientMgr.side)).1 := ((hl.carries i hi).reading ClientMgr.side).callbacks
  have hstream := hl.stream i hi ClientMgr.side
  rw [hcb]
  constructor
  · intro f hf
    obtain ⟨g, hg, hfg⟩ := called_back hread (hl.taken i hi _) (hwhole i hi _) hstream f hf
    exact ⟨g, hset.main i hi g hg, hfg⟩
  · intro hlast hempty d hd hdi
    obtain ⟨ip, port, hmem⟩ := hset.posted d hd
    rw [hdi] at hmem
    rw [hempty, List.append_nil] at hstream
    have hposted : s.main.posted i = (W i ClientMgr.side).flatMap SentFrame.encode :=
      ((hl.carries i hi).wbuf ClientMgr.side).bytes_eq
    rw [hposted] at hlast
    refine ⟨_, ip, port, rfl, ?_⟩
    rw [hstream]
    exact called_back_all hread (hl.taken i hi _) (hwhole i hi _) hlast _ hmem

/-- Two sockets are accepted, each flush takes all there is, and the worker reads everything: it is
called back about the first one twice, and about the second. -/
theorem no_connection_lost_two : ∃ s₀ s, s₀.Started ∧ System.Run s₀ s ∧ s.dispatched.length = 2 ∧
    ((s.pipe 0).pinfo ConnectWorker.side).callbacks.length = 3 ∧
    ∀ d ∈ s.dispatched, ∃ g ip port,
      g = gateFrame ptCgateNewconn (ClientMgr.newconn d.fd d.hid ip port) ∧
      (SentFrame.header g, g.2) ∈ ((s.pipe 0).pinfo ConnectWorker.side).callbacks := by
  obtain ⟨hstart, hrun⟩ := started_someGate (show someGateWorker = .ok _ from rfl)
  have h₁ := hrun.next (e := .accept zeroLibc 2 0x7F000001 80 (.accept 24)) rfl (by decide)
    ⟨zeroLibc_total, by decide, by decide⟩
  have h₂ := h₁.next (e := .accept zeroLibc 3 0x7F000001 81 (.accept 48)) rfl (by decide)
    ⟨zeroLibc_total, by decide, by decide⟩
  have h₃ := h₂.next (e := .evRead zeroLibc 0 1 (some 72)) rfl (by decide)
    ⟨zeroLibc_total, by decide, by decide⟩
  obtain ⟨-, hall⟩ := no_connection_lost (i := 0) hstart h₃ (by decide) (by decide)
  refine ⟨_, _, hstart, h₃, by decide, by decide, fun d hd => hall (by decide) (by decide) d hd ?_⟩
  revert d
  decide

end Gate

end Axon
