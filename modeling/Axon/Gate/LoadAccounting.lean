import Axon.Gate.CloseRouting

/-!
# The loads of the workers

`on_accept_new_connect` looks for the worker with the least `active_conn` to send a connection to.

* **`least_loaded_iff`** : exactly when the worker selected is one with the least load.
* **`ClientMgr.peerClosed`** : the connection a message says the peer has closed.
* **`Loads`** : runs of the main thread, with the connections dispatched and not yet reported
  closed.
* **`LoadsTrue`** : `active_conn` of every worker is the number of these connections it has.
* **`loads_true_iff`** : this is so only when there are none.
-/

namespace Axon

open Library

namespace Gate

open Codegen

/-! ## The worker selected -/

/-- Only the first two workers are ever looked at. -/
lemma ClientMgr.selectWorker_eq (m : ClientMgr) : m.selectWorker =
    if 1 < m.workerNum ∧ (m.workers 1).activeConn < (m.workers 0).activeConn then 1 else 0 := by
  rw [selectWorker]
  by_cases hnum : 1 < m.workerNum
  · have hrange : List.range' 1 (m.workerNum - 1) = 1 :: List.range' 2 (m.workerNum - 2) := by
      rw [show m.workerNum - 1 = (m.workerNum - 2) + 1 by omega, List.range'_succ]
    rw [hrange, List.foldl_cons]
    -- after the first round `load` is not above `workers_[1].active_conn` any more
    by_cases hless : (m.workers 1).activeConn < (m.workers 0).activeConn
    · rw [if_pos ⟨hnum, hless⟩]
      dsimp only
      rw [if_pos hless, List.foldl_fixed' fun _ => if_neg (lt_irrefl _)]
    · rw [if_neg fun h => hless h.2]
      dsimp only
      rw [if_neg hless, List.foldl_fixed' fun _ => if_neg hless]
  · rw [if_neg fun h => hnum h.1, Nat.sub_eq_zero_of_le (Nat.le_of_not_lt hnum)]
    rfl

/-- **When the least loaded worker is selected**: for any number of workers and any loads, exactly
when every worker from the third on has at least the load of one of the first two. -/
theorem least_loaded_iff {m : ClientMgr} (hpos : 0 < m.workerNum) :
    (∀ i < m.workerNum, (m.workers m.selectWorker).activeConn ≤ (m.workers i).activeConn) ↔
      ∀ i, 2 ≤ i → i < m.workerNum →
        (m.workers 0).activeConn ≤ (m.workers i).activeConn ∨
          (m.workers 1).activeConn ≤ (m.workers i).activeConn := by
  rw [m.selectWorker_eq]
  constructor
  · intro hleast i _ hi
    have hi := hleast i hi
    split_ifs at hi
    · exact .inr hi
    · exact .inl hi
  · intro hrest i hi
    have hcases : i = 0 ∨ i = 1 ∨ 2 ≤ i := by omega
    split_ifs with hless
    · obtain ⟨-, hless⟩ := hless
      rcases hcases with rfl | rfl | htwo
      · exact hless.le
      · exact le_rfl
      · rcases hrest i htwo hi with h | h
        · exact hless.le.trans h
        · exact h
    · rcases hcases with rfl | rfl | htwo
      · exact le_rfl
      · exact le_of_not_gt fun h => hless ⟨hi, h⟩
      · have hle : (m.workers 0).activeConn ≤ (m.workers 1).activeConn :=
          le_of_not_gt fun h => hless ⟨by omega, h⟩
        rcases hrest i htwo hi with h | h
        · exact h
        · exact hle.trans h

/-- A main thread whose workers have the given loads. -/
def loadedMgr (t : TpipeT) (loads : List ℤ) : ClientMgr where
  workerNum := loads.length
  inited := true
  hid := 1
  workers := fun i => ⟨loads.getD i 0, 100, .active, t⟩
  listens := 0

/-- Three workers, the second with the least load. -/
theorem least_loaded_second : ∃ m : ClientMgr, m.workerNum = 3 ∧ m.selectWorker = 1 ∧
    ∀ i < m.workerNum, (m.workers m.selectWorker).activeConn ≤ (m.workers i).activeConn := by
  obtain ⟨t, -⟩ : ∃ t, TpipeT.new zeroLibc TpipeT.someFds = .ok t := ⟨_, rfl⟩
  refine ⟨loadedMgr t [2, 0, 1], rfl, rfl, (least_loaded_iff (Nat.succ_pos 2)).mpr ?_⟩
  intro i htwo hi
  obtain rfl : i = 2 := Nat.le_antisymm (Nat.le_of_lt_succ hi) htwo
  exact .inr (show (0 : ℤ) ≤ 1 by decide)

/-- Three workers, the third with the least load: it is not selected. -/
theorem least_loaded_fails : ∃ m : ClientMgr, m.workerNum = 3 ∧ m.selectWorker = 1 ∧
    (m.workers 2).activeConn < (m.workers m.selectWorker).activeConn := by
  obtain ⟨t, -⟩ : ∃ t, TpipeT.new zeroLibc TpipeT.someFds = .ok t := ⟨_, rfl⟩
  exact ⟨loadedMgr t [2, 1, 0], rfl, rfl, show (0 : ℤ) < 1 by decide⟩

/-! ## The loads -/

/-- The descriptor and the id in a `PEER_CLOSE` that `process_conn_notify` handles. -/
def ClientMgr.peerClosed (mem : ℕ → UInt8) (header : MsgHeader) (p : ℕ) : Option (ℤ × ℤ) :=
  match dispatch mem header p with
  | none => none
  | some (cmd, p, remain) =>
      if cmd = ptConnNotify then
        let (pkt, ret) := unpack pbConnNotify zeroed mem (some p) (ConnectWorker.asUint32 remain)
        if 0 ≤ ret ∧ pkt .action = peerClose then some (pkt .fd, pkt .hid) else none
      else none

lemma peerClosed_delivered {mem : ℕ → UInt8} {header : MsgHeader} {p : ℕ} {fd hid : ℤ}
    (hfd : FieldType.int32.InRange fd) (hhid : FieldType.int32.InRange hid)
    (h : Delivered (gateFrame ptConnNotify (ConnectWorker.connNotify fd hid)) mem header p) :
    ClientMgr.peerClosed mem header p = some (fd, hid) := by
  obtain ⟨q, remain, pkt, hdispatch, hunpack, hpfd, hphid, haction⟩ :=
    connNotify_delivered hfd hhid h
  rw [ClientMgr.peerClosed, hdispatch]
  dsimp only
  rw [if_pos rfl, hunpack]
  dsimp only
  rw [if_pos ⟨by omega, haction⟩, hpfd, hphid]

/-- A connection that has been dispatched to a worker. -/
structure Dispatched where
  worker : ℕ
  fd : ℤ
  hid : ℕ
deriving DecidableEq, Repr

/-- The message is about this connection; on the way the id has become an `int`. -/
def Dispatched.IsNamed (c : Dispatched) (named : ℤ × ℤ) : Prop :=
  c.fd = named.1 ∧ FieldType.int32.convert c.hid = named.2

instance (c : Dispatched) (named : ℤ × ℤ) : Decidable (c.IsNamed named) :=
  inferInstanceAs (Decidable (c.fd = named.1 ∧ FieldType.int32.convert c.hid = named.2))

/-- What is left of the connections after a message. -/
def settle (live : List Dispatched) : Option (ℤ × ℤ) → List Dispatched
  | none => live
  | some named => live.eraseP fun c => c.IsNamed named

/-- **Runs of the main thread** with the connections dispatched whose `PEER_CLOSE` has not been
processed. -/
inductive Loads (workerNum : ℤ) : ClientMgr → List Dispatched → Prop
  | start {junk : ℕ → ThreadWorker} {mailbox : ℕ → TpipeT} {m : ClientMgr}
      (hinit : ClientMgr.init junk mailbox workerNum = .ok m) (maxConnect : ℤ)
      (started : ℕ → Bool) : Loads workerNum (m.startWorker maxConnect started).1 []
  | accept {m m' : ClientMgr} {live : List Dispatched} {os : Libc} {sockfd : ℤ} {ip port hid : ℕ}
      {res : WriteResult} (hrun : Loads workerNum m live)
      (hstep : m.onAcceptNewConnect os sockfd ip port res = .ok (m', hid)) :
      Loads workerNum m' (⟨m.selectWorker, sockfd, hid⟩ :: live)
  | message {m m' : ClientMgr} {live : List Dispatched} {os : Libc} {mem : ℕ → UInt8}
      {header : MsgHeader} {p : ℕ} {res : WriteResult} (hrun : Loads workerNum m live)
      (hstep : m.onMailboxRead os mem header p res = .ok m') :
      Loads workerNum m' (settle live (ClientMgr.peerClosed mem header p))
  /-- The mailbox of a worker is read or written from its other side. -/
  | mailbox {m : ClientMgr} {live : List Dispatched} (hrun : Loads workerNum m live) (i : ℕ)
      (t : TpipeT) : Loads workerNum (m.withMailbox i t) live

/-- **The loads are true**: `active_conn` of every worker is the number of its connections. -/
def LoadsTrue (m : ClientMgr) (live : List Dispatched) : Prop :=
  ∀ i < m.workerNum, (m.workers i).activeConn = live.countP fun c => c.worker = i

/-- What holds in every state of a run: nobody counts, and every connection went to a worker. -/
structure Uncounted (m : ClientMgr) (live : List Dispatched) : Prop where
  pos : 0 < m.workerNum
  idle : ∀ i < m.workerNum, (m.workers i).activeConn = 0
  worker : ∀ c ∈ live, c.worker < m.workerNum

namespace Uncounted

variable {m m' : ClientMgr} {live live' : List Dispatched}

lemma congr (h : Uncounted m live) (hsame : ClientMgr.SameCounts m m') (hsub : live' ⊆ live) :
    Uncounted m' live' where
  pos := hsame.workerNum ▸ h.pos
  idle i hi := (hsame.activeConn i).trans (h.idle i (hsame.workerNum ▸ hi))
  worker c hc := hsame.workerNum ▸ h.worker c (hsub hc)

lemma accept {os : Libc} {sockfd : ℤ} {ip port hid : ℕ} {res : WriteResult}
    (h : Uncounted m live) (hstep : m.onAcceptNewConnect os sockfd ip port res = .ok (m', hid)) :
    Uncounted m' (⟨m.selectWorker, sockfd, hid⟩ :: live) := by
  obtain ⟨-, t, rfl⟩ := ClientMgr.onAccept_eq_ok hstep
  have hmid : Uncounted { m with hid := m.nextHid } (⟨m.selectWorker, sockfd, hid⟩ :: live) := by
    refine ⟨h.pos, h.idle, ?_⟩
    intro c hc
    rcases List.mem_cons.mp hc with rfl | hc
    · exact ClientMgr.selectWorker_lt h.pos
    · exact h.worker c hc
  exact hmid.congr (ClientMgr.sameCounts_withMailbox _ _ t) (List.Subset.refl _)

/-- **Loads of 0** are true only without connections. -/
lemma loadsTrue_iff (h : Uncounted m live) : LoadsTrue m live ↔ live = [] := by
  constructor
  · intro htrue
    rw [List.eq_nil_iff_forall_not_mem]
    intro c hc
    have hlt := h.worker c hc
    have hcount := htrue c.worker hlt
    rw [h.idle c.worker hlt] at hcount
    have hpos : 0 < live.countP fun c' => c'.worker = c.worker :=
      List.countP_pos_iff.mpr ⟨c, hc, by simp⟩
    omega
  · rintro rfl i hi
    rw [h.idle i hi]
    rfl

end Uncounted

lemma settle_subset (live : List Dispatched) (named : Option (ℤ × ℤ)) :
    settle live named ⊆ live := by
  cases named with
  | none => exact List.Subset.refl live
  | some named => exact List.eraseP_subset

/-- A connection whose id survives as an `int` is settled by the report about it. -/
lemma settle_self {c : Dispatched} (h : FieldType.int32.InRange c.hid) :
    settle [c] (some (c.fd, (c.hid : ℤ))) = [] := by
  have hnamed : c.IsNamed (c.fd, (c.hid : ℤ)) := ⟨rfl, h⟩
  rw [settle, List.eraseP_cons_of_pos (by simpa using hnamed)]

/-- **Nobody counts** in any state of any run. -/
lemma Loads.uncounted {workerNum : ℤ} {m : ClientMgr} {live : List Dispatched}
    (h : Loads workerNum m live) : Uncounted m live := by
  induction h with
  | start hinit maxConnect started =>
      refine ⟨?_, (numbered_start hinit).idle, by simp⟩
      obtain ⟨_, hpos, hinit⟩ := bind_eq_ok hinit
      have hpos := rtAssert_eq_ok hpos
      obtain rfl := Except.ok.inj hinit
      rw [ClientMgr.startWorker, if_neg (by simp)]
      show 0 < (if 32 < workerNum then 32 else workerNum).toNat
      split_ifs <;> omega
  | accept _ hstep ih => exact ih.accept hstep
  | message _ hstep ih =>
      exact ih.congr (ClientMgr.sameCounts_onMailboxRead hstep) (settle_subset _ _)
  | mailbox _ i t ih =>
      exact ih.congr (ClientMgr.sameCounts_withMailbox _ i t) (List.Subset.refl _)

/-- **When the loads are true.**  In every state reached by accepts and messages from the workers in
any order: `active_conn` of every worker is the number of its connections whose `PEER_CLOSE` has not
been processed if and only if there is no such connection at all. -/
theorem loads_true_iff {workerNum : ℤ} {m : ClientMgr} {live : List Dispatched}
    (h : Loads workerNum m live) : LoadsTrue m live ↔ live = [] :=
  h.uncounted.loadsTrue_iff

/-- A main thread with two workers that has accepted nothing yet. -/
lemma loads_nothing : ∃ m, Loads 2 m [] ∧ m.inited = true ∧ m.workerNum = 2 ∧
    ∀ n < 2 ^ 16, m.CanPost m.selectWorker n := by
  obtain ⟨t, hnew⟩ : ∃ t, TpipeT.new zeroLibc TpipeT.someFds = .ok t := ⟨_, rfl⟩
  have hinit : ClientMgr.init (fun _ => ⟨0, 0, .null, t⟩) (fun _ => t) 2 = .ok _ := rfl
  exact ⟨_, .start hinit 100 fun _ => true, rfl, rfl,
    fun n hn => TpipeT.canWrite_init hnew ClientMgr.side (by omega)⟩

/-- The connection on the descriptor 5 is accepted, and its peer closes it: then they are. -/
theorem loads_true_settled : ∃ m m' c header mem, Loads 2 m [c] ∧
    ClientMgr.peerClosed mem header 0 = some (c.fd, (c.hid : ℤ)) ∧
    m.onMailboxRead zeroLibc mem header 0 .again = .ok m' ∧ Loads 2 m' [] ∧ LoadsTrue m' [] := by
  obtain ⟨m, hrun, hin, hnum, hcan⟩ := loads_nothing
  have hlt : m.selectWorker < m.workerNum := ClientMgr.selectWorker_lt (by omega)
  obtain ⟨t, hstep, -, hcan'⟩ :=
    ClientMgr.onAccept_posts zeroLibc_total hin (hcan _ (by decide)) 5 0x7F000001 80 .again
  have hrun₁ := hrun.accept hstep
  set m₁ := ({ m with hid := m.nextHid } : ClientMgr).withMailbox m.selectWorker t with hm₁
  -- the worker reports that the peer is gone
  have hs : m.selectWorker < 32 := by omega
  have hint := (inRange_makeHid hs m.nextHid_lt).1
  have hdel := delivered_byteAt (gateFrame ptConnNotify
    (ConnectWorker.connNotify 5 (ClientMgr.makeHid m.selectWorker m.nextHid)))
  have hclosed := peerClosed_delivered (show FieldType.int32.InRange 5 by decide) hint hdel
  have hanswer := (answered (show FieldType.int32.InRange 5 by decide) hint
    (thrIdxFromHid_makeHid hs m.nextHid_lt) hlt m₁ zeroLibc _ _ 0 .again rfl hdel).2
  obtain ⟨m₂, hstep₂, -⟩ := hanswer zeroLibc_total (hcan' _ (hcan _ (by decide)))
  have hrun₂ := hrun₁.message hstep₂
  rw [hclosed, settle_self (c := ⟨m.selectWorker, 5, ClientMgr.makeHid m.selectWorker m.nextHid⟩)
    hint] at hrun₂
  exact ⟨m₁, m₂, _, _, _, hrun₁, hclosed, hstep₂, hrun₂, (loads_true_iff hrun₂).mpr rfl⟩

/-- After the first accept they are not: its worker still has the load 0. -/
theorem loads_true_fails : ∃ m c, Loads 2 m [c] ∧ c.worker < m.workerNum ∧
    (m.workers c.worker).activeConn = 0 ∧ ¬ LoadsTrue m [c] := by
  obtain ⟨m, hrun, hin, -, hcan⟩ := loads_nothing
  obtain ⟨t, hstep, -⟩ :=
    ClientMgr.onAccept_posts zeroLibc_total hin (hcan _ (by decide)) 5 0x7F000001 80 .again
  have hrun' := hrun.accept hstep
  have huncounted := hrun'.uncounted
  have hlt := huncounted.worker _ List.mem_cons_self
  refine ⟨_, _, hrun', hlt, huncounted.idle _ hlt, ?_⟩
  rw [huncounted.loadsTrue_iff]
  simp

end Gate

end Axon
