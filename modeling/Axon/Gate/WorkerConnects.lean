import Axon.Core.ConnectSlots
import Axon.Gate.ConnectWorker

/-!
# The connections of a worker

What `new_connect` and `close_connect` do to the container of a worker whose slots are in order.

* **`ConnectWorker.Sound`** : the slots are in order and the buffer sizes usable.
* **`Serves`** : a connection admitted for a descriptor, with an id.
* **`Sound.newConnect_full`**, **`Sound.newConnect_eq`** : a full container refuses; otherwise a
  free slot is filled, and then the descriptor is registered.
* **`Sound.closeConnect_eq`** : a connection in use is given back, and its descriptor retired.
-/

namespace Axon

open Library

/-- A connection apart from its links in the list of the container. -/
def Connect.core (c : Connect) : Connect := { c with next := none, prev := none }

namespace ConnectContainer

lemma enlist_core_self (t : ConnectContainer) (i : ℕ) (c : Connect) :
    ((t.enlist i c).connects i).core = c.core := by
  rw [enlist]
  dsimp only
  rw [setIf_field Connect.core, Function.update_self]
  · rfl
  · exact fun _ => rfl

/-- Giving a slot back leaves the other connections as they are, links apart. -/
lemma delist_core_of_ne (t : ConnectContainer) {i j : ℕ} (hne : j ≠ i) :
    ((t.delist i).connects j).core = (t.connects j).core := by
  rw [delist_field Connect.core, Function.update_of_ne hne]
  exact fun _ _ _ => rfl

/-- The buffers stay where they are. -/
lemma delist_rbuf (t : ConnectContainer) (i j : ℕ) :
    ((t.delist i).connects j).rbuf = (t.connects j).rbuf := by
  rw [delist_field Connect.rbuf]
  · rcases eq_or_ne j i with rfl | hne
    · rw [Function.update_self]
    · rw [Function.update_of_ne hne]
  · exact fun _ _ _ => rfl

end ConnectContainer

namespace Gate

/-- The connection `c` is the one in slot `i`, for the descriptor `fd` and with the id `hid`. -/
structure Serves (c : Connect) (i : ℕ) (fd hid : ℤ) : Prop where
  index : c.index = i
  fd : c.fd = fd
  hid : c.hid = hid
  status : c.status = connActive
  mgr : c.mgr = workerSelf

lemma Serves.congr {c c' : Connect} {i : ℕ} {fd hid : ℤ} (h : Serves c i fd hid)
    (hcore : c'.core = c.core) : Serves c' i fd hid where
  index := (congrArg Connect.index hcore).trans h.index
  fd := (congrArg Connect.fd hcore).trans h.fd
  hid := (congrArg Connect.hid hcore).trans h.hid
  status := (congrArg Connect.status hcore).trans h.status
  mgr := (congrArg Connect.mgr hcore).trans h.mgr

namespace ConnectWorker

/-- **The slots of a worker are in order**: of `n` slots `used` are allocated. -/
structure Sound (w : ConnectWorker) (n : ℕ) (used : Finset ℕ) : Prop where
  slots : w.container.Slots n used
  usable : w.container.Usable
  rsize : w.container.rsize = w.rbufSize
  wsize : w.container.wsize = w.wbufSize

/-- The container `t` after the slot `i` of the worker has been filled. -/
structure Placed (w : ConnectWorker) (n : ℕ) (used : Finset ℕ) (fd hid : ℤ) (t : ConnectContainer)
    (i : ℕ) : Prop where
  fresh : i ∉ used
  lt : i < n
  slots : t.Slots n (insert i used)
  usable : t.Usable
  rsize : t.rsize = w.rbufSize
  wsize : t.wsize = w.wbufSize
  serves : Serves (t.connects i) i fd hid
  rest : ∀ j ≠ i, (t.connects j).core = (w.container.connects j).core
  /-- The read buffer has been made ready twice. -/
  rbuf : ∃ os b b', Connect.readyBuffer os (w.container.connects i).rbuf w.rbufSize = .ok b ∧
    Connect.readyBuffer os (some b) w.rbufSize = .ok b' ∧ (t.connects i).rbuf = some b'

section

variable {w w' : ConnectWorker} {n : ℕ} {used : Finset ℕ} {os : Libc} {a : ℕ}
  {fd hid peerIp peerPort : ℤ}

section Start

variable {junk : ℤ → PollerEntry} {junkStack : ℕ → ℤ} {timetick idx : ℤ} {rsize wsize : ℕ}
  {mailbox : TpipeT} (hstep : start os a junk junkStack timetick n rsize wsize mailbox idx = .ok w)

include hstep

/-- A worker that has just been started. -/
lemma start_eq_ok : ∃ p p' v, FdPollerBase.new os junk n timetick = .ok p ∧
    p.addFd a ((mailbox.init side true).pinfo side).fd (some mailboxReactor) = .ok (p', v) ∧
    w = { poller := p', container := ConnectContainer.new junkStack n workerSelf rsize wsize
          rbufSize := rsize, wbufSize := wsize, mailbox := mailbox.init side true, idx := idx
          closed := [], echoed := [] } := by
  obtain ⟨p, hp, hstep⟩ := bind_eq_ok hstep
  obtain ⟨⟨p', v⟩, hadd, hstep⟩ := bind_eq_ok hstep
  exact ⟨p, p', v, hp, hadd, (Except.ok.inj hstep).symm⟩

lemma sound_start (hn : n < 2 ^ 31) (hr : 0 < rsize ∧ rsize < 2 ^ 31)
    (hw : 0 < wsize ∧ wsize < 2 ^ 31) : Sound w n ∅ := by
  obtain ⟨p, p', v, -, -, rfl⟩ := start_eq_ok hstep
  exact ⟨ConnectContainer.slots_new hn, ⟨rfl, hr.1, hr.2, hw.1, hw.2⟩, rfl, rfl⟩

end Start

/-- A full container refuses. -/
lemma Sound.newConnect_full (h : Sound w n used) (hfull : used.card = n) :
    w.newConnect os a fd hid peerIp peerPort = .ok (w, none) := by
  have halloc : w.container.allocConnect os fd = .ok (w.container, axRetFull) := by
    rw [ConnectContainer.allocConnect, if_pos (by rw [h.slots.capacity, h.slots.count, hfull])]
  rw [newConnect, halloc]
  rfl

/-- **With a free slot** `new_connect` fills it, and then registers the descriptor. -/
lemma Sound.newConnect_eq (h : Sound w n used) (hlt : used.card < n) (hos : os.Total)
    (hfd : 0 ≤ fd) (hid peerIp peerPort : ℤ) :
    ∃ t i, Placed w n used fd hid t i ∧ ∀ a,
      w.newConnect os a fd hid peerIp peerPort = (do
        let (poller, _) ← w.poller.addFd a fd (some (connReactor i))
        pure ({ w with container := t, poller := poller }, some i)) := by
  have hu := h.usable
  have hr : i32 w.rbufSize = w.rbufSize := by rw [← h.rsize, i32_of_lt hu.rsize_lt]
  have hw : i32 w.wbufSize = w.wbufSize := by rw [← h.wsize, i32_of_lt hu.wsize_lt]
  have hrpos : 0 < i32 w.rbufSize := by
    rw [hr, ← h.rsize]
    exact_mod_cast hu.rsize_pos
  have hwpos : 0 < i32 w.wbufSize := by
    rw [hw, ← h.wsize]
    exact_mod_cast hu.wsize_pos
  obtain ⟨t₁, v, halloc⟩ := h.slots.alloc_total hu hos hfd
  rcases h.slots.alloc_of_ok halloc with ⟨-, -, hfull⟩ |
    ⟨-, i, c₁, rfl, hin, hnot, hinit₁, rfl, hslots⟩
  · omega
  set t := w.container.enlist i c₁ with ht
  have hcore : (t.connects i).core = c₁.core := ConnectContainer.enlist_core_self _ i c₁
  obtain ⟨c₂, hinit₂⟩ := ConnectContainer.init_ok hos (t.connects i) (m := workerSelf) rfl hfd
    hrpos hwpos
  obtain ⟨-, -, -, rb₁, wb₁, hrb₁, -, rfl⟩ := ConnectContainer.init_eq_ok hinit₁
  obtain ⟨-, -, -, rb₂, wb₂, hrb₂, -, hc₂⟩ := ConnectContainer.init_eq_ok hinit₂
  have hget : t.getConnect i = some (t.connects i) := by
    rw [ConnectContainer.getConnect, if_neg, Int.toNat_natCast]
    rw [hslots.capacity]
    omega
  set c : Connect := ({ c₂ with
    index := i, hid := hid, peerPort := peerPort.toNat, peerIp := peerIp.toNat } :
      Connect).setStatus connActive with hc
  refine ⟨{ t with connects := Function.update t.connects i c }, i, ?_, fun a => ?_⟩
  · rw [hr, Int.toNat_natCast] at hrb₂
    rw [h.rsize, hr, Int.toNat_natCast] at hrb₁
    have hself : (t.connects i).rbuf = some rb₁ := congrArg Connect.rbuf hcore
    rw [hself] at hrb₂
    refine ⟨hnot, hin, hslots.setConnect (Finset.mem_insert_self i used) c,
      hu.congr rfl rfl rfl, h.rsize, h.wsize, ?_,
      fun j hj => ?_, os, rb₁, rb₂, hrb₁, hrb₂, ?_⟩
    · simp only [Function.update_self]
      rw [hc, hc₂]
      exact ⟨rfl, rfl, rfl, rfl, rfl⟩
    · simp only [Function.update_of_ne hj]
      rw [ht, ConnectContainer.enlist_field Connect.core _ _ hj]
      exact fun _ _ _ => rfl
    · simp only [Function.update_self]
      rw [hc, hc₂]
      rfl
  · rw [newConnect, halloc, ok_bind]
    dsimp only
    rw [if_neg (by omega), hget]
    dsimp only
    rw [hinit₂, ok_bind]
    dsimp only
    rw [if_neg (by decide), Int.toNat_natCast]
    rfl

lemma Placed.sound {t : ConnectContainer} {i : ℕ} (hp : Placed w n used fd hid t i)
    (p : FdPollerBase) : Sound { w with container := t, poller := p } n (insert i used) :=
  ⟨hp.slots, hp.usable, hp.rsize, hp.wsize⟩

/-! ## Closing -/

lemma Sound.getConnect_eq (h : Sound w n used) {i : ℕ} (hi : i < n) :
    w.container.getConnect i = some (w.container.connects i) := by
  rw [ConnectContainer.getConnect, if_neg, Int.toNat_natCast]
  rw [h.slots.capacity]
  omega

/-- **A connection in use** is given back after its descriptor has been retired. -/
lemma Sound.closeConnect_eq (h : Sound w n used) {i : ℕ} (hi : i ∈ used)
    (hhid : (w.container.connects i).hid = hid) :
    w.closeConnect i hid = (do
      let (poller, _) ← w.poller.closeFd (w.container.connects i).fd
      pure { w with poller := poller, container := w.container.delist i }) := by
  rw [closeConnect, h.getConnect_eq (h.slots.lt_of_mem i hi)]
  dsimp only
  rw [if_neg (not_not.mpr hhid), (h.slots.free hi).1]
  rfl

lemma Sound.delist (h : Sound w n used) {i : ℕ} (hi : i ∈ used) (p : FdPollerBase) :
    Sound { w with poller := p, container := w.container.delist i } n (used.erase i) :=
  ⟨h.slots.delist hi, h.usable.congr rfl rfl rfl, h.rsize, h.wsize⟩

end

end ConnectWorker

end Gate

end Axon
