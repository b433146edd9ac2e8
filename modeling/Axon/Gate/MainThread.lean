import Axon.Gate.NewConnection

/-!
# The steps of the main thread

What `on_accept_new_connect` and `on_mailbox_read` can do to the state of the main thread.

* **`ClientMgr.onAccept_eq_ok`** : an accept advances the counter and writes to one mailbox.
* **`ClientMgr.reported`** : the state after a worker has reported that it is up.
* **`ClientMgr.onMailboxRead_cases`** : a message does nothing, writes to one mailbox, or reports a
  worker.
* **`ClientMgr.SameCounts`** : the counter, the number of the workers and their loads are the same.
* **`ClientMgr.selectWorker_lt`**, **`selectWorker_eq_zero`** : the worker selected.
-/

namespace Axon

open Library

namespace Gate

open Codegen

namespace ClientMgr

/-- The worker selected is one of the workers. -/
lemma selectWorker_lt {m : ClientMgr} (h : 0 < m.workerNum) :
    m.selectWorker < m.workerNum := by
  rw [selectWorker]
  refine List.foldlRecOn (motive := fun s : ℤ × ℕ => s.2 < m.workerNum) _ _ h
    fun s hs i hi => ?_
  obtain ⟨load, select⟩ := s
  have hlt := List.mem_range'_1.mp hi
  dsimp only
  split_ifs
  · show i < m.workerNum
    omega
  · exact hs

section

variable {os : Libc} {m m' : ClientMgr}

lemma post_eq_ok {idx : ℕ} {cmd : ℤ} {msg : ProtoMsg} {res : WriteResult}
    (h : m.post os idx cmd msg res = .ok m') : ∃ t, m' = m.withMailbox idx t := by
  obtain ⟨⟨t, v, sent⟩, -, h⟩ := bind_eq_ok h
  exact ⟨t, (Except.ok.inj h).symm⟩

/-- An accept advances the counter and writes to one mailbox. -/
lemma onAccept_eq_ok {sockfd : ℤ} {ip port hid : ℕ} {res : WriteResult}
    (h : m.onAcceptNewConnect os sockfd ip port res = .ok (m', hid)) :
    hid = makeHid m.selectWorker m.nextHid ∧
      ∃ t, m' = ({ m with hid := m.nextHid } : ClientMgr).withMailbox m.selectWorker t := by
  obtain ⟨-, -, h⟩ := bind_eq_ok h
  obtain ⟨m₁, hpost, h⟩ := bind_eq_ok h
  obtain ⟨rfl, rfl⟩ := Prod.mk.inj (Except.ok.inj h)
  exact ⟨rfl, post_eq_ok hpost⟩

/-- The counter, the number of the workers and their loads are the same. -/
structure SameCounts (m m' : ClientMgr) : Prop where
  hid : m'.hid = m.hid
  workerNum : m'.workerNum = m.workerNum
  activeConn : ∀ i, (m'.workers i).activeConn = (m.workers i).activeConn

lemma SameCounts.refl (m : ClientMgr) : SameCounts m m := ⟨rfl, rfl, fun _ => rfl⟩

lemma sameCounts_update (m : ClientMgr) (idx : ℕ) {e : ThreadWorker}
    (he : e.activeConn = (m.workers idx).activeConn) (listens : ℕ) :
    SameCounts m { m with workers := Function.update m.workers idx e, listens := listens } := by
  refine ⟨rfl, rfl, fun i => ?_⟩
  by_cases hi : i = idx
  · subst hi
    simp [he]
  · simp [hi]

lemma sameCounts_withMailbox (m : ClientMgr) (idx : ℕ) (t : TpipeT) :
    SameCounts m (m.withMailbox idx t) :=
  sameCounts_update m idx (e := { m.workers idx with mailbox := t }) rfl m.listens

/-- The state after the worker `i` has reported that it is up; when it is the last one, `listen()`
has been called. -/
def reported (m : ClientMgr) (i : ℕ) : ClientMgr :=
  let m := { m with
    workers := Function.update m.workers i { m.workers i with status := .active } }
  if ∀ j < m.workerNum, (m.workers j).status = .active then { m with listens := m.listens + 1 }
  else m

lemma sameCounts_reported (m : ClientMgr) (i : ℕ) : SameCounts m (m.reported i) := by
  rw [reported]
  dsimp only
  split_ifs
  · exact sameCounts_update m i (by rfl) _
  · exact sameCounts_update m i (by rfl) _

/-- A report leaves the mailboxes alone. -/
lemma reported_mailbox (m : ClientMgr) (i j : ℕ) :
    ((m.reported i).workers j).mailbox = (m.workers j).mailbox := by
  have hupdate : (Function.update m.workers i { m.workers i with status := .active } j).mailbox =
      (m.workers j).mailbox := by
    rcases eq_or_ne j i with rfl | hne
    · rw [Function.update_self]
    · rw [Function.update_of_ne hne]
  rw [reported]
  dsimp only
  split_ifs
  · exact hupdate
  · exact hupdate

lemma reported_inited (m : ClientMgr) (i : ℕ) : (m.reported i).inited = m.inited := by
  rw [reported]
  dsimp only
  split_ifs
  · rfl
  · rfl

/-- `process_worker_command` for the start of the worker `i`. -/
lemma processWorkerCommand_start {mem : ℕ → UInt8} {p : ℕ} {remain ret : ℤ} {pkt : GateField → ℤ}
    (hunpack : unpack pbWorkerNotify zeroed mem (some p) (ConnectWorker.asUint32 remain) =
      (pkt, ret)) (hret : 0 ≤ ret) (hcmd : pkt .cmd = workerStartOk) {i : ℕ}
    (hi : pkt .lparam = i) (hlt : i < m.workerNum) :
    m.processWorkerCommand mem p remain = .ok (m.reported i) := by
  rw [processWorkerCommand, hunpack]
  dsimp only
  rw [if_neg (not_lt.mpr hret), if_pos hcmd, hi, if_pos (by omega), Int.toNat_natCast, reported]
  dsimp only
  split_ifs
  · rfl
  · rfl

/-- `process_worker_command` does nothing, or reports one of the workers. -/
lemma processWorkerCommand_cases {mem : ℕ → UInt8} {p : ℕ} {remain : ℤ}
    (h : m.processWorkerCommand mem p remain = .ok m') :
    m' = m ∨ ∃ i < m.workerNum, m' = m.reported i := by
  obtain ⟨pkt, ret, hunpack⟩ : ∃ pkt ret,
      unpack pbWorkerNotify zeroed mem (some p) (ConnectWorker.asUint32 remain) = (pkt, ret) :=
    ⟨_, _, rfl⟩
  by_cases hret : 0 ≤ ret
  · by_cases hcmd : pkt .cmd = workerStartOk
    · by_cases hrange : 0 ≤ pkt .lparam ∧ pkt .lparam < m.workerNum
      · obtain ⟨i, hi⟩ := Int.eq_ofNat_of_zero_le hrange.1
        have hlt : i < m.workerNum := by omega
        rw [processWorkerCommand_start hunpack hret hcmd hi hlt] at h
        exact Or.inr ⟨i, hlt, (Except.ok.inj h).symm⟩
      · rw [processWorkerCommand, hunpack] at h
        dsimp only at h
        rw [if_neg (not_lt.mpr hret), if_pos hcmd, if_neg hrange] at h
        exact absurd h (by simp)
    · rw [processWorkerCommand, hunpack] at h
      dsimp only at h
      rw [if_neg (not_lt.mpr hret), if_neg hcmd] at h
      exact Or.inl (Except.ok.inj h).symm
  · rw [processWorkerCommand, hunpack] at h
    dsimp only at h
    rw [if_pos (not_le.mp hret)] at h
    exact Or.inl (Except.ok.inj h).symm

/-- `process_conn_notify` does nothing, or writes to one mailbox. -/
lemma processConnNotify_cases {mem : ℕ → UInt8} {p : ℕ} {remain : ℤ} {res : WriteResult}
    (h : m.processConnNotify os mem p remain res = .ok m') :
    m' = m ∨ ∃ idx t, m' = m.withMailbox idx t := by
  rw [processConnNotify] at h
  dsimp only at h
  split_ifs at h
  · exact Or.inl (Except.ok.inj h).symm
  · obtain ⟨-, -, h⟩ := bind_eq_ok h
    obtain ⟨t, rfl⟩ := post_eq_ok h
    exact Or.inr ⟨_, t, rfl⟩
  · exact Or.inl (Except.ok.inj h).symm

/-- **What a message from a worker can do**: nothing, write to one mailbox, or report a worker. -/
lemma onMailboxRead_cases {mem : ℕ → UInt8} {header : MsgHeader} {p : ℕ} {res : WriteResult}
    (h : m.onMailboxRead os mem header p res = .ok m') :
    m' = m ∨ (∃ idx t, m' = m.withMailbox idx t) ∨ ∃ i < m.workerNum, m' = m.reported i := by
  rw [onMailboxRead] at h
  split at h
  · exact Or.inl (Except.ok.inj h).symm
  · split_ifs at h
    · exact (processWorkerCommand_cases h).imp_right Or.inr
    · exact (processConnNotify_cases h).imp_right Or.inl
    · exact Or.inl (Except.ok.inj h).symm

/-- A message from a worker leaves the counter alone. -/
lemma sameCounts_onMailboxRead {mem : ℕ → UInt8} {header : MsgHeader} {p : ℕ} {res : WriteResult}
    (h : m.onMailboxRead os mem header p res = .ok m') : SameCounts m m' := by
  rcases onMailboxRead_cases h with rfl | ⟨idx, t, rfl⟩ | ⟨i, -, rfl⟩
  · exact .refl m'
  · exact sameCounts_withMailbox m idx t
  · exact sameCounts_reported m i

/-- As long as no worker has a load, the first one is selected. -/
lemma selectWorker_eq_zero (hidle : ∀ i < m.workerNum, (m.workers i).activeConn = 0) :
    m.selectWorker = 0 := by
  rw [selectWorker]
  by_cases hnum : m.workerNum ≤ 1
  · rw [Nat.sub_eq_zero_of_le hnum]
    rfl
  · rw [hidle 0 (by omega), hidle 1 (by omega)]
    rw [List.foldl_fixed' fun _ => if_neg (by decide)]

end

end ClientMgr

end Gate

end Axon
