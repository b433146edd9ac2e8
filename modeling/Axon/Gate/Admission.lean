import Axon.Core.FdPollerRetired
import Axon.Gate.NewConnection
import Axon.Gate.WorkerConnects

/-!
# Admitting a connection

A message `PT_CGATE_NEWCONN` makes the worker take a slot of its container and register the
descriptor with its poller.  The container may be full, and the descriptor, which is process-wide,
beyond the table of the poller.

* **`FdPollerBase.Polled`**, **`FdPollerBase.Deferred`** : a descriptor is registered, or will be at
  the end of the turn.
* **`Admitted`**, **`Refused`** : the two ways a message may be handled.
* **`Admissible`** : there is a free slot, and the descriptor is in the range of the poller.
* **`admission_all_or_nothing`** : these are the messages handled in one of the two ways.
-/

namespace Axon

open Library

namespace FdPollerBase

/-- The descriptor is registered for the reactor. -/
def Polled (p : FdPollerBase) (fd : ℤ) (r : ℕ) : Prop :=
  p.InRange fd ∧ (p.entry fd).status = .active ∧ (p.entry fd).reactor = some r

/-- The registration of the descriptor for the reactor is in `pending_new_`. -/
def Deferred (p : FdPollerBase) (fd : ℤ) (r : ℕ) : Prop :=
  ∃ a, HmapT.contents p.pendingNew.entries a = some (fd, some r)

/-- Somebody polls the descriptor, or will from the end of the turn on. -/
def Watched (p : FdPollerBase) (fd : ℤ) : Prop :=
  p.InRange fd ∧ (p.entry fd).status = .active ∨ ∃ r, p.Deferred fd r

variable {p p' : FdPollerBase} {fd : ℤ} {a r : ℕ}

lemma new_retiredSz {os : Libc} {junk : ℤ → PollerEntry} {maxn : ℕ} {timetick : ℤ}
    (h : FdPollerBase.new os junk maxn timetick = .ok p) : p.retiredSz = 0 := by
  obtain ⟨-, -, h⟩ := bind_eq_ok h
  obtain ⟨m, -, h⟩ := bind_eq_ok h
  obtain rfl := Except.ok.inj h
  rfl

lemma addFd_of_not_inRange (h : ¬ p.InRange fd) :
    p.addFd a fd (some r) = .ok (p, axRetError) := if_pos h

lemma Deferred.inRange (hp : p.PendingSound) (h : p.Deferred fd r) : p.InRange fd := by
  obtain ⟨l, b, hstores, hrange⟩ := hp
  obtain ⟨a, ha⟩ := h
  exact hrange ⟨a, fd, some r⟩ ((hstores.mem_iff _).mpr ha)

/-- **A descriptor in range** is registered, or its registration put off. -/
lemma PendingSound.addFd (hp : p.PendingSound) (hrange : p.InRange fd)
    (hfresh : ¬ p.pendingNew.entries.Live a) :
    ∃ p' v, p.addFd a fd (some r) = .ok (p', v) ∧ p'.PendingSound ∧
      (p'.Polled fd r ∨ p'.Deferred fd r) ∧ (∀ fd', p.Watched fd' → p'.Watched fd') ∧
      p'.maxFds = p.maxFds ∧ p'.retiredSz = p.retiredSz := by
  obtain ⟨l, b, hstores, hkeys⟩ := hp
  by_cases hempty : (p.entry fd).status = .empty
  · refine ⟨p.install fd (some r), axRetOk, ?_, ⟨l, b, hstores, hkeys⟩,
      Or.inl ⟨hrange, install_entry_self p fd (some r)⟩, fun fd' hw => ?_, rfl, rfl⟩
    · rw [FdPollerBase.addFd, if_neg (not_not.mpr hrange), if_neg (not_not.mpr hempty)]
      rfl
    · rcases hw with ⟨hrange', hactive⟩ | hdef
      · have hne : fd' ≠ fd := fun heq =>
          absurd ((heq ▸ hactive).symm.trans hempty) (by decide)
        refine Or.inl ⟨hrange', ?_⟩
        rw [install_entry_of_ne hne]
        exact hactive
      · exact Or.inr hdef
  · obtain ⟨m, b', hins, -, hstores'⟩ := hstores.insert hfresh fd (some r)
    have hmem := fun c => hstores'.mem_iff c
    refine ⟨{ p with pendingNew := m }, axRetAgain, ?_, ⟨_, b', hstores', ?_⟩,
      Or.inr ⟨a, (hmem ⟨a, fd, some r⟩).mp List.mem_cons_self⟩, fun fd' hw => ?_, rfl, rfl⟩
    · rw [FdPollerBase.addFd, if_neg (not_not.mpr hrange), if_pos hempty, hins]
      rfl
    · intro c hc
      rcases List.mem_cons.mp hc with rfl | hc
      · exact hrange
      · exact hkeys c hc
    · rcases hw with hw | ⟨r', a', ha'⟩
      · exact Or.inl hw
      · exact Or.inr ⟨r', a', (hmem ⟨a', fd', some r'⟩).mp
          (List.mem_cons_of_mem _ ((hstores.mem_iff ⟨a', fd', some r'⟩).mpr ha'))⟩

/-- Registering returns for any descriptor. -/
lemma PendingSound.addFd_returns (hp : p.PendingSound) (hfresh : ¬ p.pendingNew.entries.Live a)
    (fd : ℤ) (r : ℕ) : ∃ p' v, p.addFd a fd (some r) = .ok (p', v) := by
  by_cases hrange : p.InRange fd
  · obtain ⟨p', v, hadd, -⟩ := hp.addFd hrange hfresh
    exact ⟨p', v, hadd⟩
  · exact ⟨p, _, addFd_of_not_inRange hrange⟩

/-- A turn in which nothing has been retired keeps watching. -/
lemma PendingSound.finish (hp : p.PendingSound) (hret : p.retiredSz = 0) :
    ∃ p' log, p.finish = .ok (p', log) ∧ p'.PendingSound ∧
      (∀ fd, p.Watched fd → p'.Watched fd) ∧ p'.maxFds = p.maxFds ∧ p'.retiredSz = 0 := by
  obtain ⟨l, b, hstores, hkeys⟩ := hp
  have hnone : ∀ i < p.retiredSz, p.InRange (p.retired i) := fun i hi => by omega
  obtain ⟨p₁, hfin, hpend, hmax, -, hother, -⟩ := finish_eq hstores hkeys hnone
  obtain ⟨hpend', hmax', hsz⟩ := installAll_frame l { p₁ with retiredSz := 0 }
  have hrange : ∀ fd, p.InRange fd → ({ p₁ with retiredSz := 0 }.installAll l).InRange fd := by
    intro fd h
    rw [InRange, hmax']
    show 0 ≤ fd ∧ fd < i32 p₁.maxFds
    rw [hmax]
    exact h
  refine ⟨_, _, hfin, ⟨l, b, ?_, fun c hc => hrange _ (hkeys c hc)⟩, fun fd hw => ?_,
    hmax'.trans hmax, hsz⟩
  · rw [hpend']
    exact hpend ▸ hstores
  · rcases hw with ⟨hin, hactive⟩ | ⟨r, a, ha⟩
    · refine Or.inl ⟨hrange fd hin, ?_⟩
      by_cases hmem : fd ∈ l.map Cell.key
      · exact (installAll_of_mem hmem).1
      · rw [installAll_of_notMem hmem]
        exact (hother fd fun j hj => by omega).trans hactive
    · refine Or.inr ⟨r, a, ?_⟩
      rw [hpend']
      exact hpend ▸ ha

end FdPollerBase

namespace Gate

open Codegen ConnectWorker

/-! ## One message -/

/-- **The connection has been admitted**: one more slot is in use, with the descriptor; the others
are as they were; and the descriptor is registered for that slot or will be. -/
def Admitted (w w' : ConnectWorker) (n : ℕ) (used : Finset ℕ) (fd : ℤ) : Prop :=
  ∃ i, i ∉ used ∧ w'.container.Slots n (insert i used) ∧ (w'.container.connects i).fd = fd ∧
    (∀ j ≠ i, (w'.container.connects j).core = (w.container.connects j).core) ∧
    (w'.poller.Polled fd (connReactor i) ∨ w'.poller.Deferred fd (connReactor i))

/-- **The connection has been refused**: container and poller are as they were, and the descriptor
has been closed. -/
def Refused (w w' : ConnectWorker) (fd : ℤ) : Prop :=
  w'.container = w.container ∧ w'.poller = w.poller ∧ w'.closed = w.closed ++ [fd]

/-- **The condition**: a slot is free, and the descriptor is in the range of the poller. -/
def Admissible (w : ConnectWorker) (fd : ℤ) : Prop :=
  w.container.count < w.container.capacity ∧ w.poller.InRange fd

section Step

variable {w : ConnectWorker} {n : ℕ} {used : Finset ℕ} {os : Libc} {a : ℕ} {fd hid ip port : ℤ}

/-- What an admissible connection leaves behind. -/
structure Taken (w w' : ConnectWorker) (n : ℕ) (used : Finset ℕ) (fd : ℤ) (i : ℕ) : Prop where
  fresh : i ∉ used
  sound : Sound w' n (insert i used)
  pending : w'.poller.PendingSound
  fd_eq : (w'.container.connects i).fd = fd
  rest : ∀ j ≠ i, (w'.container.connects j).core = (w.container.connects j).core
  registered : w'.poller.Polled fd (connReactor i) ∨ w'.poller.Deferred fd (connReactor i)
  watched : ∀ fd', w.poller.Watched fd' → w'.poller.Watched fd'
  retiredSz : w'.poller.retiredSz = w.poller.retiredSz

variable (h : Sound w n used) (hp : w.poller.PendingSound) (hos : os.Total)

include h hp hos

/-- An admissible connection is admitted. -/
lemma newConnect_admissible (hfresh : ¬ w.poller.pendingNew.entries.Live a)
    (hadm : Admissible w fd) :
    ∃ w' i, w.newConnect os a fd hid ip port = .ok (w', some i) ∧ Taken w w' n used fd i := by
  obtain ⟨hroom, hrange⟩ := hadm
  rw [h.slots.count, h.slots.capacity] at hroom
  obtain ⟨t, i, hplaced, heq⟩ := h.newConnect_eq (by omega) hos hrange.1 hid ip port
  obtain ⟨p', v, hadd, hp', hreg, hwatch, -, hsz⟩ := hp.addFd hrange hfresh (r := connReactor i)
  refine ⟨{ w with container := t, poller := p' }, i, ?_, hplaced.fresh, hplaced.sound p', hp',
    hplaced.serves.fd, hplaced.rest, hreg, hwatch, hsz⟩
  rw [heq a, hadd]
  rfl

/-- Any other connection is neither admitted nor refused: when the container is full nothing is done
at all, and when the descriptor is out of range its slot stays allocated. -/
lemma newConnect_inadmissible (hfd : 0 ≤ fd) (hadm : ¬ Admissible w fd) :
    ∃ w' s, w.newConnect os a fd hid ip port = .ok (w', s) ∧
      ¬ (Admitted w w' n used fd ∨ Refused w w' fd) := by
  have hclosed : ∀ w' : ConnectWorker, w'.closed = w.closed → ¬ Refused w w' fd := by
    intro w' heq href
    have hlen := congrArg List.length (heq.symm.trans href.2.2)
    rw [List.length_append, List.length_singleton] at hlen
    omega
  have hle := h.slots.card_le
  by_cases hfull : used.card = n
  · refine ⟨w, none, h.newConnect_full hfull, ?_⟩
    rintro (⟨i, hnot, hslots, -⟩ | href)
    · have hcount := hslots.count
      rw [h.slots.count, Finset.card_insert_of_notMem hnot] at hcount
      omega
    · exact hclosed w rfl href
  · have hrange : ¬ w.poller.InRange fd := by
      refine fun hin => hadm ⟨?_, hin⟩
      rw [h.slots.count, h.slots.capacity]
      omega
    obtain ⟨t, i, -, heq⟩ := h.newConnect_eq (by omega) hos hfd hid ip port
    refine ⟨{ w with container := t }, i, ?_, ?_⟩
    · rw [heq a, FdPollerBase.addFd_of_not_inRange hrange]
      rfl
    · rintro (⟨j, -, -, -, -, hpolled | hdef⟩ | href)
      · exact hrange hpolled.1
      · exact hrange (hdef.inRange hp)
      · exact hclosed { w with container := t } rfl href

end Step

/-! ## Runs -/

/-- **A run of new-connection messages** on a new worker with `n` slots, over any number of turns of
its loop.  `fds` are the descriptors received, and `P` is the condition on the messages. -/
inductive Admissions (P : ConnectWorker → ℤ → Prop) (n : ℕ) : ConnectWorker → List ℤ → Prop
  | start {os : Libc} {a : ℕ} {junk : ℤ → PollerEntry} {junkStack : ℕ → ℤ} {timetick idx : ℤ}
      {rsize wsize : ℕ} {mailbox : TpipeT} {w : ConnectWorker} (hos : os.Total)
      (hr : 0 < rsize ∧ rsize < 2 ^ 31) (hw : 0 < wsize ∧ wsize < 2 ^ 31)
      (hstep : ConnectWorker.start os a junk junkStack timetick n rsize wsize mailbox idx = .ok w) :
      Admissions P n w []
  | message {w w' : ConnectWorker} {fds : List ℤ} {os : Libc} {a : ℕ} {mem : ℕ → UInt8}
      {header : MsgHeader} {p : ℕ} {fd hid ip port : ℤ} {s : Option ℕ} (hrun : Admissions P n w fds)
      (hos : os.Total) (hfresh : ¬ w.poller.pendingNew.entries.Live a)
      (hargs : newconnArgs mem header p = some (fd, hid, ip, port)) (hfd : 0 ≤ fd) (hP : P w fd)
      (hstep : w.onMailboxRead os a mem header p = .ok (w', s)) : Admissions P n w' (fd :: fds)
  | endTurn {w w' : ConnectWorker} {fds : List ℤ} (hrun : Admissions P n w fds)
      (hstep : w.step .endTurn = .ok w') : Admissions P n w' fds

/-- What a run of admissible messages keeps: every slot in use is for a descriptor that somebody
polls or will poll, and every descriptor received has a slot. -/
structure Owned (w : ConnectWorker) (n : ℕ) (used : Finset ℕ) (fds : List ℤ) : Prop where
  sound : Sound w n used
  pending : w.poller.PendingSound
  retiredSz : w.poller.retiredSz = 0
  watched : ∀ i ∈ used, w.poller.Watched (w.container.connects i).fd
  owner : ∀ fd ∈ fds, ∃ i ∈ used, (w.container.connects i).fd = fd

lemma onMailboxRead_of_args {w : ConnectWorker} {os : Libc} {a : ℕ} {mem : ℕ → UInt8}
    {header : MsgHeader} {p : ℕ} {fd hid ip port : ℤ}
    (hargs : newconnArgs mem header p = some (fd, hid, ip, port)) :
    w.onMailboxRead os a mem header p = w.newConnect os a fd hid ip port := by
  rw [onMailboxRead, hargs]

lemma owned_start {os : Libc} {a : ℕ} {junk : ℤ → PollerEntry} {junkStack : ℕ → ℤ}
    {timetick idx : ℤ} {n rsize wsize : ℕ} {mailbox : TpipeT} {w : ConnectWorker} (hn : n < 2 ^ 31)
    (hos : os.Total) (hr : 0 < rsize ∧ rsize < 2 ^ 31) (hw : 0 < wsize ∧ wsize < 2 ^ 31)
    (hstep : ConnectWorker.start os a junk junkStack timetick n rsize wsize mailbox idx = .ok w) :
    Owned w n ∅ [] := by
  have hsound' := sound_start hstep hn hr hw
  obtain ⟨p, p', v, hp, hadd, rfl⟩ := start_eq_ok hstep
  obtain ⟨stores, -⟩ := FdPollerBase.inv_new hos hp
  obtain ⟨stale, b, hstores, hstale⟩ := stores
  have hnil : FdPollerBase.Hist.start.waiting ++ stale = [] := by
    rw [hstale rfl]
    rfl
  rw [hnil] at hstores
  have hsound : p.PendingSound := ⟨[], b, hstores, by simp⟩
  have hsz := FdPollerBase.new_retiredSz hp
  have hpoller : p'.PendingSound ∧ p'.retiredSz = 0 := by
    by_cases hrange : p.InRange ((mailbox.init side true).pinfo side).fd
    · obtain ⟨p₁, v₁, hadd₁, hsound₁, -, -, -, hsz₁⟩ := hsound.addFd hrange
        (fun hlive => by simpa using hstores.live_iff.mp hlive)
      obtain ⟨rfl, -⟩ := Prod.mk.inj (Except.ok.inj (hadd₁.symm.trans hadd))
      exact ⟨hsound₁, hsz₁.trans hsz⟩
    · rw [FdPollerBase.addFd_of_not_inRange hrange] at hadd
      obtain ⟨rfl, -⟩ := Prod.mk.inj (Except.ok.inj hadd)
      exact ⟨hsound, hsz⟩
  exact ⟨hsound', hpoller.1, hpoller.2, by simp, by simp⟩

lemma Owned.taken {w w' : ConnectWorker} {n : ℕ} {used : Finset ℕ} {fds : List ℤ} {fd : ℤ} {i : ℕ}
    (ho : Owned w n used fds) (ht : Taken w w' n used fd i) :
    Owned w' n (insert i used) (fd :: fds) := by
  have hsame : ∀ j ∈ used, (w'.container.connects j).fd = (w.container.connects j).fd := by
    intro j hj
    have hcore := ht.rest j fun heq => ht.fresh (heq ▸ hj)
    show (w'.container.connects j).core.fd = (w.container.connects j).core.fd
    rw [hcore]
  have hself : w'.poller.Watched fd :=
    ht.registered.imp (fun h => ⟨h.1, h.2.1⟩) fun h => ⟨_, h⟩
  refine ⟨ht.sound, ht.pending, ht.retiredSz.trans ho.retiredSz, fun j hj => ?_, fun fd' hfd' => ?_⟩
  · rcases Finset.mem_insert.mp hj with rfl | hj
    · rw [ht.fd_eq]
      exact hself
    · rw [hsame j hj]
      exact ht.watched _ (ho.watched j hj)
  · rcases List.mem_cons.mp hfd' with rfl | hfd'
    · exact ⟨i, Finset.mem_insert_self i used, ht.fd_eq⟩
    · obtain ⟨j, hj, hjfd⟩ := ho.owner fd' hfd'
      exact ⟨j, Finset.mem_insert_of_mem hj, (hsame j hj).trans hjfd⟩

lemma Owned.endTurn {w : ConnectWorker} {n : ℕ} {used : Finset ℕ} {fds : List ℤ}
    (ho : Owned w n used fds) : ∃ w', w.step .endTurn = .ok w' ∧ Owned w' n used fds := by
  obtain ⟨p', log, hfin, hp', hwatch, -, hsz⟩ := ho.pending.finish ho.retiredSz
  refine ⟨{ w with poller := p', closed := w.closed ++ log.closed }, ?_,
    ⟨ho.sound.slots, ho.sound.usable, ho.sound.rsize, ho.sound.wsize⟩, hp', hsz,
    fun i hi => hwatch _ (ho.watched i hi), ho.owner⟩
  rw [ConnectWorker.step, hfin]
  rfl

/-- **Runs of admissible messages.** -/
lemma Admissions.owned {n : ℕ} {w : ConnectWorker} {fds : List ℤ} (hn : n < 2 ^ 31)
    (h : Admissions Admissible n w fds) : ∃ used, Owned w n used fds := by
  induction h with
  | start hos hr hw hstep => exact ⟨∅, owned_start hn hos hr hw hstep⟩
  | message _ hos hfresh hargs hfd hP hstep ih =>
      obtain ⟨used, ho⟩ := ih
      obtain ⟨w₁, i, hok, ht⟩ := newConnect_admissible ho.sound ho.pending hos hfresh hP
      rw [onMailboxRead_of_args hargs] at hstep
      obtain ⟨rfl, -⟩ := Prod.mk.inj (Except.ok.inj (hok.symm.trans hstep))
      exact ⟨_, ho.taken ht⟩
  | endTurn _ hstep ih =>
      obtain ⟨used, ho⟩ := ih
      obtain ⟨w₁, hok, ho'⟩ := ho.endTurn
      obtain rfl := Except.ok.inj (hok.symm.trans hstep)
      exact ⟨used, ho'⟩

/-- **When admitting a connection is all or nothing.**  For every state of a worker whose slots and
whose pending registrations are in order, and every message about a new connection: it is handled,
and the connection is admitted or refused as a whole if and only if a slot is free and the
descriptor is in the range of the poller.  And in every run of messages that all meet this
condition, no slot is allocated for a descriptor that nobody polls, and every descriptor received
has a slot. -/
theorem admission_all_or_nothing (n : ℕ) :
    (∀ (w : ConnectWorker) (used : Finset ℕ) (os : Libc) (a : ℕ) (mem : ℕ → UInt8)
      (header : MsgHeader) (p : ℕ) (fd hid ip port : ℤ), Sound w n used → w.poller.PendingSound →
      os.Total → ¬ w.poller.pendingNew.entries.Live a →
      newconnArgs mem header p = some (fd, hid, ip, port) → 0 ≤ fd →
      ∃ w' s, w.onMailboxRead os a mem header p = .ok (w', s) ∧
        (Admitted w w' n used fd ∨ Refused w w' fd ↔ Admissible w fd)) ∧
    ∀ (w : ConnectWorker) (fds : List ℤ), n < 2 ^ 31 → Admissions Admissible n w fds →
      ∃ used, w.container.Slots n used ∧
        (∀ i ∈ used, w.poller.Watched (w.container.connects i).fd) ∧
        ∀ fd ∈ fds, ∃ i ∈ used, (w.container.connects i).fd = fd := by
  refine ⟨fun w used os a mem header p fd hid ip port h hp hos hfresh hargs hfd => ?_,
    fun w fds hn hrun => ?_⟩
  · rw [onMailboxRead_of_args hargs]
    by_cases hadm : Admissible w fd
    · obtain ⟨w', i, hok, ht⟩ := newConnect_admissible h hp hos hfresh hadm
      exact ⟨w', i, hok, fun _ => hadm, fun _ => Or.inl
        ⟨i, ht.fresh, ht.sound.slots, ht.fd_eq, ht.rest, ht.registered⟩⟩
    · obtain ⟨w', s, hok, hnot⟩ := newConnect_inadmissible h hp hos hfd hadm
      exact ⟨w', s, hok, fun hor => absurd hor hnot, fun h => absurd h hadm⟩
  · obtain ⟨used, ho⟩ := hrun.owned hn
    exact ⟨used, ho.sound.slots, ho.watched, ho.owner⟩

/-- The message about a connection on the descriptor `fd`, with the id 1, from the loopback address.
-/
def someNewconn (fd : ℤ) : SentFrame :=
  gateFrame ptCgateNewconn (ClientMgr.newconn fd 1 0x7F000001 80)

/-- A worker with `n` slots that has just been started. -/
def startSome (n : ℕ) : Except Fault ConnectWorker := do
  let mailbox ← TpipeT.new zeroLibc TpipeT.someFds
  ConnectWorker.start zeroLibc 0 (fun _ => ⟨0, .empty, none⟩) (fun _ => 0) 100 n 64 256 mailbox 0

lemma newconnArgs_some {fd : ℤ} (hfd : FieldType.int32.InRange fd) :
    newconnArgs (byteAt (someNewconn fd).2) (SentFrame.header (someNewconn fd)) 0 =
      some (fd, 1, 0x7F000001, 80) := by
  have hargs := newconnArgs_delivered (delivered_byteAt (someNewconn fd))
  have hmember : (ClientMgr.newconn fd 1 0x7F000001 80).member .fd = fd := hfd
  have hip : (ClientMgr.newconn fd 1 0x7F000001 80).member .ip = 0x7F000001 := rfl
  rw [hmember, hip, (decode64_leBytes_iff (by decide)).mpr (by decide)] at hargs
  exact hargs

lemma startSome_eq_ok {n : ℕ} {w : ConnectWorker} (h : startSome n = .ok w) (hn : n < 2 ^ 31) :
    Owned w n ∅ [] ∧ ∀ P, Admissions P n w [] := by
  obtain ⟨mailbox, -, h⟩ := bind_eq_ok h
  exact ⟨owned_start hn zeroLibc_total (by decide) (by decide) h,
    fun _ => .start zeroLibc_total (by decide) (by decide) h⟩

/-- A worker with four slots admits a connection on the descriptor 2. -/
theorem admission_all_or_nothing_one : ∃ w, Admissions Admissible 4 w [2] ∧
    ∃ used, w.container.Slots 4 used ∧ ∃ i ∈ used, (w.container.connects i).fd = 2 := by
  have hstart : startSome 4 = .ok _ := rfl
  obtain ⟨ho, hrun⟩ := startSome_eq_ok hstart (by decide)
  obtain ⟨w', s, hok, -⟩ := (admission_all_or_nothing 4).1 _ ∅ zeroLibc 0 _ _ _ 2 _ _ _ ho.sound
    ho.pending zeroLibc_total (by decide) (newconnArgs_some (by decide)) (by decide)
  have hrun' := (hrun Admissible).message zeroLibc_total (by decide) (newconnArgs_some (by decide))
    (by decide) ⟨by decide, by decide⟩ hok
  obtain ⟨used, hslots, -, howner⟩ := (admission_all_or_nothing 4).2 w' [2] (by decide) hrun'
  exact ⟨w', hrun', used, hslots, howner 2 (by simp)⟩

/-- A descriptor beyond the table of the poller, and a connection too many: neither admitted nor
refused. -/
theorem admission_all_or_nothing_fails :
    (∃ w w' s, Admissions (fun _ _ => True) 4 w [] ∧
      w.onMailboxRead zeroLibc 0 (byteAt (someNewconn 9).2) (SentFrame.header (someNewconn 9)) 0 =
        .ok (w', s) ∧ ¬ (Admitted w w' 4 ∅ 9 ∨ Refused w w' 9)) ∧
    ∃ w w' w'' i s, Admissions (fun _ _ => True) 1 w [] ∧
      w.onMailboxRead zeroLibc 0 (byteAt (someNewconn 0).2) (SentFrame.header (someNewconn 0)) 0 =
        .ok (w', some i) ∧
      w'.onMailboxRead zeroLibc 0 (byteAt (someNewconn 2).2) (SentFrame.header (someNewconn 2)) 0 =
        .ok (w'', s) ∧ ¬ (Admitted w' w'' 1 {i} 2 ∨ Refused w' w'' 2) := by
  constructor
  · have hstart : startSome 4 = .ok _ := rfl
    obtain ⟨ho, hrun⟩ := startSome_eq_ok hstart (by decide)
    obtain ⟨w', s, hok, hnot⟩ := newConnect_inadmissible ho.sound ho.pending zeroLibc_total
      (show (0 : ℤ) ≤ 9 by decide) fun hadm => absurd hadm.2 (by decide)
    exact ⟨_, w', s, hrun _, (onMailboxRead_of_args (newconnArgs_some (by decide))).trans hok, hnot⟩
  · have hstart : startSome 1 = .ok _ := rfl
    obtain ⟨ho, hrun⟩ := startSome_eq_ok hstart (by decide)
    obtain ⟨w', i, hok, ht⟩ := newConnect_admissible ho.sound ho.pending zeroLibc_total
      (a := 0) (by decide) (show Admissible _ 0 from ⟨by decide, by decide⟩)
    have hfull : ¬ Admissible w' 2 := by
      rintro ⟨hroom, -⟩
      rw [ht.sound.slots.count, ht.sound.slots.capacity] at hroom
      simp at hroom
    obtain ⟨w'', s, hok', hnot⟩ := newConnect_inadmissible ht.sound ht.pending zeroLibc_total
      (by decide) hfull
    refine ⟨_, w', w'', i, s, hrun _,
      (onMailboxRead_of_args (newconnArgs_some (by decide))).trans hok,
      (onMailboxRead_of_args (newconnArgs_some (by decide))).trans hok', ?_⟩
    simpa using hnot

end Gate

end Axon
