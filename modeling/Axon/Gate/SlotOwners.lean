import Axon.Gate.ReadEvents

/-!
# What a slot of a worker is for

The descriptor, the id and the manager of a slot are set when a connection is placed there.  Nothing
else changes them: not reading, not reporting, not even giving the slot back.

* **`Connect.owner`** : what a slot is for.
* **`ConnectWorker.newConnect_owner`** : a new connection takes one slot.
* **`ConnectWorker.poll_owner`** : a read event changes no slot, and sends at most one report, about
  a slot that has been used.
-/

namespace Axon

open Library

/-- The manager, the descriptor and the id of a connection. -/
def Connect.owner (c : Connect) : Option ℕ × ℤ × ℤ := (c.mgr, c.fd, c.hid)

/-- Reading fills the buffer only. -/
lemma Connect.read_owner {c c' : Connect} {os : Libc} {res : ReadResult} {errno errno' : Bool}
    {ret : ℤ} (h : c.read os res errno = .ok (c', ret, errno')) : c'.owner = c.owner := by
  rw [Connect.read] at h
  split at h
  · exact absurd h (by simp)
  split_ifs at h
  · obtain ⟨rfl, -⟩ := Prod.mk.inj (Except.ok.inj h)
    rfl
  obtain ⟨⟨b, r⟩, -, h⟩ := bind_eq_ok h
  dsimp only at h
  split at h
  · obtain ⟨rfl, -⟩ := Prod.mk.inj (Except.ok.inj h)
    rfl
  · obtain ⟨rfl, -⟩ := Prod.mk.inj (Except.ok.inj h)
    rfl
  · obtain ⟨rfl, -⟩ := Prod.mk.inj (Except.ok.inj h)
    rfl
  · obtain ⟨b', -, h⟩ := bind_eq_ok h
    obtain ⟨rfl, -⟩ := Prod.mk.inj (Except.ok.inj h)
    rfl

namespace ConnectContainer

/-- Giving a slot back changes the status and links only. -/
lemma freeConnect_field {β : Type} (φ : Connect → β)
    (hφ : ∀ (c : Connect) s n p, φ { c with status := s, next := n, prev := p } = φ c)
    {t t' : ConnectContainer} {vfd : ℤ} (h : t.freeConnect vfd = .ok t') (k : ℕ) :
    φ (t'.connects k) = φ (t.connects k) := by
  rw [freeConnect] at h
  obtain ⟨-, -, h⟩ := bind_eq_ok h
  obtain ⟨-, -, h⟩ := bind_eq_ok h
  dsimp only at h
  split_ifs at h
  obtain rfl := Except.ok.inj h
  dsimp only
  rw [setIf_field φ, setIf_field φ]
  · rcases eq_or_ne k vfd.toNat with rfl | hne
    · rw [Function.update_self]
      exact hφ _ _ _ _
    · rw [Function.update_of_ne hne]
  · exact fun c => hφ c c.status _ c.prev
  · exact fun c => hφ c c.status c.next _

/-- Handing a slot out leaves the others alone. -/
lemma enlist_owner_of_ne (t : ConnectContainer) (c : Connect) {i k : ℕ} (h : k ≠ i) :
    ((t.enlist i c).connects k).owner = (t.connects k).owner :=
  enlist_field Connect.owner (fun _ _ _ => rfl) c h

end ConnectContainer

namespace Gate

open Codegen

namespace ConnectWorker

variable {w w' : ConnectWorker} {os : Libc}

/-- The slots are for the same connections, and the worker is the same. -/
structure SameOwners (w w' : ConnectWorker) : Prop where
  owner : ∀ k, (w'.container.connects k).owner = (w.container.connects k).owner
  idx : w'.idx = w.idx

lemma SameOwners.refl (w : ConnectWorker) : SameOwners w w := ⟨fun _ => rfl, rfl⟩

lemma SameOwners.trans {w'' : ConnectWorker} (h : SameOwners w w') (h' : SameOwners w' w'') :
    SameOwners w w'' :=
  ⟨fun k => (h'.owner k).trans (h.owner k), h'.idx.trans h.idx⟩

lemma sameOwners_setConn {i : ℕ} {c : Connect}
    (hc : c.owner = (w.container.connects i).owner) : SameOwners w (w.setConn i c) := by
  refine ⟨fun k => ?_, rfl⟩
  rcases eq_or_ne k i with rfl | hne
  · simpa [setConn] using hc
  · simp [setConn, hne]

/-- **What `close_connect` does**: nothing, or a descriptor is retired and a slot given back. -/
lemma closeConnect_cases {vfd hid : ℤ} (h : w.closeConnect vfd hid = .ok w') :
    w' = w ∨ ∃ p t, w.container.freeConnect vfd = .ok t ∧
      w' = { w with poller := p, container := t } := by
  rw [closeConnect] at h
  split at h
  · exact Or.inl (Except.ok.inj h).symm
  split_ifs at h
  · exact Or.inl (Except.ok.inj h).symm
  obtain ⟨⟨p, r⟩, -, h⟩ := bind_eq_ok h
  obtain ⟨t, hfree, h⟩ := bind_eq_ok h
  exact Or.inr ⟨p, t, hfree, (Except.ok.inj h).symm⟩

lemma closeConnect_owner {vfd hid : ℤ} (h : w.closeConnect vfd hid = .ok w') :
    SameOwners w w' ∧ w'.mailbox = w.mailbox := by
  rcases closeConnect_cases h with rfl | ⟨p, t, hfree, rfl⟩
  · exact ⟨.refl w', rfl⟩
  · refine ⟨⟨fun k => ?_, rfl⟩, rfl⟩
    exact ConnectContainer.freeConnect_field Connect.owner (fun _ _ _ _ => rfl) hfree k

lemma processData_owner {i : ℕ} (h : w.processData os i = .ok w') :
    SameOwners w w' ∧ w'.mailbox = w.mailbox := by
  rw [processData] at h
  dsimp only at h
  split at h
  · exact absurd h (by simp)
  obtain ⟨⟨b, r⟩, -, h⟩ := bind_eq_ok h
  obtain rfl := Except.ok.inj h
  have hecho : ∀ echoed, SameOwners w { w with echoed } := fun _ => ⟨fun _ => rfl, rfl⟩
  dsimp only
  split_ifs
  · exact ⟨(hecho _).trans (sameOwners_setConn rfl), rfl⟩
  · exact ⟨sameOwners_setConn rfl, rfl⟩

/-- **A read event of a slot** changes what no slot is for, and sends nothing or one report about
the slot. -/
lemma onRead_owner {i : ℕ} {res : ReadResult} {errno : Bool} {wres : WriteResult}
    (h : w.onRead os i res errno wres = .ok w') :
    SameOwners w w' ∧ (w'.mailbox = w.mailbox ∨ ∃ w₁ w₂ : ConnectWorker, w₁.mailbox = w.mailbox ∧
      w₁.sendWorkerCommand os ptConnNotify (connNotify (w.container.connects i).fd
        (w.container.connects i).hid).proto wres = .ok w₂ ∧ w'.mailbox = w₂.mailbox) := by
  obtain ⟨⟨c, ret, errno'⟩, hread, h⟩ := bind_eq_ok h
  have howner := Connect.read_owner hread
  have hset : SameOwners w (w.setConn i c) := sameOwners_setConn howner
  dsimp only at h
  split_ifs at h
  · obtain rfl := Except.ok.inj h
    exact ⟨hset, Or.inl rfl⟩
  · obtain rfl := Except.ok.inj h
    exact ⟨hset, Or.inl rfl⟩
  · obtain ⟨w₂, hwait, h⟩ := bind_eq_ok h
    obtain ⟨hclose, hmail⟩ := closeConnect_owner h
    have hmid : SameOwners (w.setConn i c) w₂ := by
      obtain ⟨⟨t, v, sent⟩, -, hw₂⟩ := bind_eq_ok hwait
      obtain rfl := Except.ok.inj hw₂
      exact ⟨fun _ => rfl, rfl⟩
    have hfd : c.fd = (w.container.connects i).fd := congrArg (fun o => o.2.1) howner
    have hhid : c.hid = (w.container.connects i).hid := congrArg (fun o => o.2.2) howner
    rw [waitClose, hfd, hhid] at hwait
    refine ⟨hset.trans (hmid.trans hclose), Or.inr ⟨_, w₂, ?_, hwait, hmail⟩⟩
    rfl
  · obtain ⟨hproc, hmail⟩ := processData_owner h
    exact ⟨hset.trans hproc, Or.inl hmail⟩

/-- The slot an event is for has been used. -/
lemma mgr_of_target {fd : ℤ} {i : ℕ} (h : w.target fd = some i) :
    (w.container.connects i).mgr ≠ none := by
  rw [target] at h
  split_ifs at h
  split at h
  · split_ifs at h with hmgr
    obtain rfl := Option.some.inj h
    exact hmgr
  · exact absurd h (by simp)

/-- **A readable descriptor** changes what no slot is for, and sends nothing or one report, about a
slot that has been used. -/
lemma poll_owner {fd : ℤ} {res : ReadResult} {errno : Bool} {wres : WriteResult}
    (h : w.poll os fd res errno wres = .ok w') :
    SameOwners w w' ∧ (w'.mailbox = w.mailbox ∨ ∃ i, (w.container.connects i).mgr ≠ none ∧
      ∃ w₁ w₂ : ConnectWorker, w₁.mailbox = w.mailbox ∧
        w₁.sendWorkerCommand os ptConnNotify (connNotify (w.container.connects i).fd
          (w.container.connects i).hid).proto wres = .ok w₂ ∧ w'.mailbox = w₂.mailbox) := by
  cases htarget : w.target fd with
  | none =>
      rcases poll_of_no_target htarget h with rfl | rfl
      · exact ⟨.refl _, Or.inl rfl⟩
      · exact ⟨⟨fun _ => rfl, rfl⟩, Or.inl rfl⟩
  | some i =>
      rw [poll_of_target htarget] at h
      obtain ⟨hsame, hmail⟩ := onRead_owner h
      exact ⟨hsame, hmail.imp_right fun hreport => ⟨i, mgr_of_target htarget, hreport⟩⟩

/-- **A new connection** takes one slot and leaves the others to whom they belong. -/
lemma newConnect_owner {a : ℕ} {fd hid peerIp peerPort : ℤ} {slot : Option ℕ}
    (h : w.newConnect os a fd hid peerIp peerPort = .ok (w', slot)) :
    w'.mailbox = w.mailbox ∧ w'.idx = w.idx ∧ ∀ k,
      (w'.container.connects k).owner = (w.container.connects k).owner ∨
      (w'.container.connects k).owner = (workerSelf, fd, hid) := by
  obtain ⟨⟨t, v⟩, halloc, h⟩ := bind_eq_ok h
  dsimp only at h
  rcases ConnectContainer.allocConnect_eq_ok halloc with ⟨rfl, rfl, -⟩ | ⟨rfl, rfl, -⟩ |
    ⟨i, c, rfl, -, -, -, -, rfl⟩
  · rw [if_pos (by decide)] at h
    obtain ⟨rfl, -⟩ := Prod.mk.inj (Except.ok.inj h)
    exact ⟨rfl, rfl, fun _ => Or.inl rfl⟩
  · rw [if_pos (by decide)] at h
    obtain ⟨rfl, -⟩ := Prod.mk.inj (Except.ok.inj h)
    exact ⟨rfl, rfl, fun _ => Or.inl rfl⟩
  rw [if_neg (by omega)] at h
  split at h
  · exact absurd h (by simp)
  obtain ⟨⟨c', ret⟩, hinit, h⟩ := bind_eq_ok h
  obtain ⟨rfl, -, -, rb, wb, -, -, rfl⟩ := ConnectContainer.init_eq_ok hinit
  dsimp only at h
  rw [if_neg (by decide), Int.toNat_natCast] at h
  obtain ⟨⟨p, r⟩, -, h⟩ := bind_eq_ok h
  obtain ⟨rfl, -⟩ := Prod.mk.inj (Except.ok.inj h)
  refine ⟨rfl, rfl, fun k => ?_⟩
  rcases eq_or_ne k i with rfl | hne
  · refine Or.inr ?_
    simp [setConn, Connect.owner, Connect.setStatus]
  · refine Or.inl ?_
    simp only [setConn, Function.update_of_ne hne]
    exact ConnectContainer.enlist_owner_of_ne _ c hne

end ConnectWorker

end Gate

end Axon
