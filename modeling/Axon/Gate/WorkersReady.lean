import Axon.Gate.CloseRouting

/-!
# When the client port opens

Every worker thread reports to the main thread when it is up.  The main thread marks it active,
looks whether all workers are, and calls `listen()` if so.

* **`onMailboxRead_started`** : a report is handled as `ClientMgr.reported`.
* **`Startup`** : runs of the main thread in which each worker reports at most once, with the
  workers that have.
* **`UpTo`** : exactly the workers that have reported are active.
* **`listen_once`** : `listen()` is called once, by the report that completes the set.
-/

namespace Axon

open Library

namespace Gate

open Codegen

lemma startNotify_lparam {idx : ℤ} (h : FieldType.int32.InRange idx) :
    (ConnectWorker.startNotify idx).member .lparam = idx := h

/-- **A report is read as it was sent**, and handled. -/
lemma onMailboxRead_started {m : ClientMgr} {os : Libc} {mem : ℕ → UInt8} {header : MsgHeader}
    {p i : ℕ} (hi : i < m.workerNum) (hmax : m.workerNum ≤ 32)
    (h : Delivered (gateFrame ptWorkerNotify (ConnectWorker.startNotify i)) mem header p)
    (res : WriteResult) : m.onMailboxRead os mem header p res = .ok (m.reported i) := by
  have hfit : width pbWorkerNotify.fields < 126 := by decide
  obtain ⟨pkt, hunpack, -, hmember⟩ := h.unpack_inner hfit
  have hcmd : pkt .cmd = workerStartOk :=
    hmember ⟨.cmd, .int16⟩ (by simp [pbWorkerNotify]) (by decide)
  have hrange : FieldType.int32.InRange i := by
    rw [FieldType.InRange, FieldType.convert]
    exact Int.bmod_eq_of_le (by push_cast; omega) (by push_cast; omega)
  have hlparam : pkt .lparam = i :=
    (hmember ⟨.lparam, .int32⟩ (by simp [pbWorkerNotify]) (by decide)).trans
      (startNotify_lparam hrange)
  rw [ClientMgr.onMailboxRead, h.mgr_dispatch hfit (by decide)]
  dsimp only
  rw [if_pos rfl]
  exact ClientMgr.processWorkerCommand_start hunpack (by omega) hcmd hlparam hi

/-- A message about a connection does nothing, or writes to one mailbox. -/
lemma onMailboxRead_notified {m m' : ClientMgr} {os : Libc} {mem : ℕ → UInt8} {header : MsgHeader}
    {p : ℕ} {res : WriteResult} {r : Record pbConnNotify}
    (h : Delivered (gateFrame ptConnNotify r) mem header p)
    (hstep : m.onMailboxRead os mem header p res = .ok m') :
    m' = m ∨ ∃ idx t, m' = m.withMailbox idx t := by
  rw [ClientMgr.onMailboxRead, h.mgr_dispatch (by decide) (by decide)] at hstep
  dsimp only at hstep
  rw [if_neg (by decide), if_pos rfl] at hstep
  exact ClientMgr.processConnNotify_cases hstep

/-! ## Runs -/

/-- **Runs of the main thread** from the start of the workers on, with the workers that have
reported, the latest one first.  Each worker reports at most once; messages about connections,
accepts, and what the workers do to their mailboxes may come at any time. -/
inductive Startup (workerNum : ℤ) : ClientMgr → List ℕ → Prop
  | start {junk : ℕ → ThreadWorker} {mailbox : ℕ → TpipeT} {m : ClientMgr}
      (hinit : ClientMgr.init junk mailbox workerNum = .ok m) (maxConnect : ℤ)
      (started : ℕ → Bool) : Startup workerNum (m.startWorker maxConnect started).1 []
  | report {m m' : ClientMgr} {seen : List ℕ} {os : Libc} {mem : ℕ → UInt8} {header : MsgHeader}
      {p i : ℕ} {res : WriteResult} (hrun : Startup workerNum m seen) (hi : i < m.workerNum)
      (hnew : i ∉ seen)
      (hdel : Delivered (gateFrame ptWorkerNotify (ConnectWorker.startNotify i)) mem header p)
      (hstep : m.onMailboxRead os mem header p res = .ok m') : Startup workerNum m' (i :: seen)
  | notify {m m' : ClientMgr} {seen : List ℕ} {os : Libc} {mem : ℕ → UInt8} {header : MsgHeader}
      {p : ℕ} {res : WriteResult} {r : Record pbConnNotify} (hrun : Startup workerNum m seen)
      (hdel : Delivered (gateFrame ptConnNotify r) mem header p)
      (hstep : m.onMailboxRead os mem header p res = .ok m') : Startup workerNum m' seen
  | accept {m m' : ClientMgr} {seen : List ℕ} {os : Libc} {sockfd : ℤ} {ip port hid : ℕ}
      {res : WriteResult} (hrun : Startup workerNum m seen)
      (hstep : m.onAcceptNewConnect os sockfd ip port res = .ok (m', hid)) :
      Startup workerNum m' seen
  | mailbox {m : ClientMgr} {seen : List ℕ} (hrun : Startup workerNum m seen) (i : ℕ)
      (t : TpipeT) : Startup workerNum (m.withMailbox i t) seen

/-- **Exactly the workers that have reported are active**, and `listen()` has been called when these
are all. -/
structure UpTo (m : ClientMgr) (seen : List ℕ) : Prop where
  pos : 0 < m.workerNum
  max : m.workerNum ≤ 32
  status : ∀ i < m.workerNum, (m.workers i).status = .active ↔ i ∈ seen
  listens : m.listens = if ∀ i < m.workerNum, i ∈ seen then 1 else 0

namespace UpTo

variable {m m' : ClientMgr} {seen : List ℕ} {i : ℕ}

lemma start {junk : ℕ → ThreadWorker} {mailbox : ℕ → TpipeT} {workerNum maxConnect : ℤ}
    {started : ℕ → Bool} (hinit : ClientMgr.init junk mailbox workerNum = .ok m) :
    UpTo (m.startWorker maxConnect started).1 [] := by
  obtain ⟨_, hpos, hinit⟩ := bind_eq_ok hinit
  have hpos := rtAssert_eq_ok hpos
  obtain rfl := Except.ok.inj hinit
  rw [ClientMgr.startWorker, if_neg (by simp)]
  have hnum : 0 < (if 32 < workerNum then 32 else workerNum).toNat ∧
      (if 32 < workerNum then 32 else workerNum).toNat ≤ 32 := by
    split_ifs
    · decide
    · omega
  refine ⟨hnum.1, hnum.2, ?_, ?_⟩
  · intro i hi
    dsimp only at hi ⊢
    rw [if_pos hi]
    split_ifs <;> simp
  · refine (if_neg ?_).symm
    intro hall
    exact absurd (hall 0 hnum.1) (by simp)

/-- The counter for ids does not matter. -/
lemma withHid (h : UpTo m seen) (hid : ℕ) : UpTo { m with hid := hid } seen :=
  ⟨h.pos, h.max, h.status, h.listens⟩

/-- A write to a mailbox does not matter. -/
lemma withMailbox (h : UpTo m seen) (idx : ℕ) (t : TpipeT) : UpTo (m.withMailbox idx t) seen := by
  refine ⟨h.pos, h.max, ?_, h.listens⟩
  intro i hi
  rw [← h.status i hi]
  by_cases hidx : i = idx
  · subst hidx
    simp [ClientMgr.withMailbox]
  · simp [ClientMgr.withMailbox, hidx]

/-- After a report the active workers are one more. -/
lemma status_reported (h : UpTo m seen) (i : ℕ) :
    ∀ j < m.workerNum, ((Function.update m.workers i
      { m.workers i with status := WrkStatus.active }) j).status = .active ↔ j ∈ i :: seen := by
  intro j hj
  by_cases hji : j = i
  · subst hji
    simp
  · rw [Function.update_of_ne hji, h.status j hj]
    simp [hji]

/-- **A report** of a worker that has not reported. -/
lemma reported (h : UpTo m seen) (hi : i < m.workerNum) (hnew : i ∉ seen) :
    UpTo (m.reported i) (i :: seen) := by
  have hstatus := h.status_reported i
  have hzero : m.listens = 0 := by
    rw [h.listens, if_neg]
    intro hall
    exact hnew (hall i hi)
  have hall : (∀ j < m.workerNum, ((Function.update m.workers i
      { m.workers i with status := WrkStatus.active }) j).status = .active) ↔
      ∀ j < m.workerNum, j ∈ i :: seen :=
    forall₂_congr hstatus
  rw [ClientMgr.reported]
  dsimp only
  split_ifs with hfull
  · refine ⟨h.pos, h.max, hstatus, ?_⟩
    rw [if_pos (hall.mp hfull)]
    simp [hzero]
  · refine ⟨h.pos, h.max, hstatus, ?_⟩
    rw [if_neg (mt hall.mpr hfull)]
    exact hzero

end UpTo

/-- **The active workers** in every state of every run. -/
lemma Startup.upTo {workerNum : ℤ} {m : ClientMgr} {seen : List ℕ}
    (h : Startup workerNum m seen) : UpTo m seen := by
  induction h with
  | start hinit _ _ => exact UpTo.start hinit
  | report _ hi hnew hdel hstep ih =>
      rw [onMailboxRead_started hi ih.max hdel] at hstep
      obtain rfl := Except.ok.inj hstep
      exact ih.reported hi hnew
  | notify _ hdel hstep ih =>
      rcases onMailboxRead_notified hdel hstep with rfl | ⟨idx, t, rfl⟩
      · exact ih
      · exact ih.withMailbox idx t
  | accept _ hstep ih =>
      obtain ⟨-, t, rfl⟩ := ClientMgr.onAccept_eq_ok hstep
      exact (ih.withHid _).withMailbox _ t
  | mailbox _ i t ih => exact ih.withMailbox i t

/-- **The client port opens once.**  In every run in which the workers report in any order, each
once: exactly the workers that have reported are active, and `listen()` has been called once if
these are all workers, and not at all otherwise.  The next report is handled, and calls `listen()`
if and only if it completes the set; a message about a connection does not call it. -/
theorem listen_once {workerNum : ℤ} {m : ClientMgr} {seen : List ℕ}
    (h : Startup workerNum m seen) :
    (∀ i < m.workerNum, (m.workers i).status = .active ↔ i ∈ seen) ∧
    m.listens = (if ∀ i < m.workerNum, i ∈ seen then 1 else 0) ∧
    (∀ os mem header p res i, i < m.workerNum → i ∉ seen →
      Delivered (gateFrame ptWorkerNotify (ConnectWorker.startNotify i)) mem header p →
      ∃ m', m.onMailboxRead os mem header p res = .ok m' ∧
        m'.listens = m.listens + (if ∀ j < m.workerNum, j ∈ i :: seen then 1 else 0) ∧
        (m'.listens ≠ m.listens → ∀ j < m.workerNum, (m'.workers j).status = .active)) ∧
    ∀ os mem header p res (r : Record pbConnNotify) m',
      Delivered (gateFrame ptConnNotify r) mem header p →
      m.onMailboxRead os mem header p res = .ok m' → m'.listens = m.listens := by
  have hup := h.upTo
  refine ⟨hup.status, hup.listens, ?_, ?_⟩
  · intro os mem header p res i hi hnew hdel
    have hnext := hup.reported hi hnew
    have hzero : m.listens = 0 := by
      rw [hup.listens, if_neg]
      intro hall
      exact hnew (hall i hi)
    have hnum : (m.reported i).workerNum = m.workerNum := (m.sameCounts_reported i).workerNum
    have hcount := hnext.listens
    rw [hnum] at hcount
    refine ⟨_, onMailboxRead_started hi hup.max hdel res, ?_, ?_⟩
    · rw [hcount, hzero, Nat.zero_add]
    · intro hcalled j hj
      rw [hnext.status j (by rw [hnum]; exact hj)]
      by_contra hmissing
      rw [hcount, hzero, if_neg fun hall => hmissing (hall j hj)] at hcalled
      exact hcalled rfl
  · intro os mem header p res r m' hdel hstep
    rcases onMailboxRead_notified hdel hstep with rfl | ⟨idx, t, rfl⟩
    · rfl
    · rfl

/-- Two workers: the second one reports, then its peer closes a connection, then the first one
reports and opens the port. -/
theorem listen_once_two : ∃ m₁ m₂ m₃ : ClientMgr, Startup 2 m₁ [1] ∧ m₁.listens = 0 ∧
    (∃ mem header, Delivered (gateFrame ptConnNotify (ConnectWorker.connNotify 5 (2 ^ 26 + 1)))
      mem header 0 ∧ m₁.onMailboxRead zeroLibc mem header 0 .again = .ok m₂) ∧
    Startup 2 m₂ [1] ∧ m₂.listens = 0 ∧ Startup 2 m₃ [0, 1] ∧ m₃.listens = 1 := by
  obtain ⟨t, hnew⟩ : ∃ t, TpipeT.new zeroLibc TpipeT.someFds = .ok t := ⟨_, rfl⟩
  have hinit : ClientMgr.init (fun _ => ⟨0, 0, .null, t⟩) (fun _ => t) 2 = .ok _ := rfl
  obtain ⟨m, hrun, hnum, hcan⟩ : ∃ m, Startup 2 m [] ∧ m.workerNum = 2 ∧
      m.CanPost 1 (width pbConnCtrl.fields) :=
    ⟨_, .start hinit 100 fun _ => true, rfl, TpipeT.canWrite_init hnew ClientMgr.side (by decide)⟩
  -- the second worker
  have hdel₁ := delivered_byteAt (gateFrame ptWorkerNotify (ConnectWorker.startNotify (1 : ℕ)))
  have hstep₁ : m.onMailboxRead zeroLibc _ _ 0 .again = .ok (m.reported 1) :=
    onMailboxRead_started (by omega) (by omega) hdel₁ .again
  have hrun₁ := hrun.report (by omega) (by simp) hdel₁ hstep₁
  have hnum₁ : (m.reported 1).workerNum = 2 := (m.sameCounts_reported 1).workerNum.trans hnum
  have hcan₁ : (m.reported 1).CanPost 1 (width pbConnCtrl.fields) := by
    rw [ClientMgr.CanPost, m.reported_mailbox]
    exact hcan
  -- the message about a connection, which is answered
  have hdel₂ := delivered_byteAt (gateFrame ptConnNotify (ConnectWorker.connNotify 5 (2 ^ 26 + 1)))
  obtain ⟨m₂, hstep₂, -⟩ := (answered (by decide) (by decide) (by decide) Nat.one_lt_two
    (m.reported 1) zeroLibc _ _ 0 .again hnum₁ hdel₂).2 zeroLibc_total hcan₁
  have hrun₂ := hrun₁.notify hdel₂ hstep₂
  have hnum₂ : m₂.workerNum = 2 := by
    rcases onMailboxRead_notified hdel₂ hstep₂ with rfl | ⟨idx, t, rfl⟩
    · exact hnum₁
    · exact hnum₁
  -- the first worker
  have hdel₃ := delivered_byteAt (gateFrame ptWorkerNotify (ConnectWorker.startNotify (0 : ℕ)))
  have hstep₃ : m₂.onMailboxRead zeroLibc _ _ 0 .again = .ok (m₂.reported 0) :=
    onMailboxRead_started (by omega) (by omega) hdel₃ .again
  have hrun₃ := hrun₂.report (by omega) (by simp) hdel₃ hstep₃
  have hnum₃ : (m₂.reported 0).workerNum = 2 := (m₂.sameCounts_reported 0).workerNum.trans hnum₂
  have hwaits : ∀ {m : ClientMgr}, m.workerNum = 2 → ¬ ∀ i < m.workerNum, i ∈ [1] :=
    fun hnum hall => absurd (hall 0 (by omega)) (by decide)
  refine ⟨_, m₂, _, hrun₁, ?_, ⟨_, _, hdel₂, hstep₂⟩, hrun₂, ?_, hrun₃, ?_⟩
  · rw [(listen_once hrun₁).2.1, if_neg (hwaits hnum₁)]
  · rw [(listen_once hrun₂).2.1, if_neg (hwaits hnum₂)]
  · rw [(listen_once hrun₃).2.1, if_pos]
    intro i hi
    obtain rfl | rfl : i = 0 ∨ i = 1 := by omega
    all_goals decide

end Gate

end Axon
