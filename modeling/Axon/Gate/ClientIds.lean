import Axon.Gate.MainThread
import Mathlib.Data.List.Nodup
import Mathlib.Data.Nat.ModEq

/-!
# The ids of client connections

An id is the number of the worker in the upper 6 bits of 32 and a counter in the lower 26; the
counter is the same for all workers and goes on by one with every connection accepted.

* **`nextHid_eq`**, **`makeHid_eq`** : the masks and shifts as arithmetic.
* **`Accepts`** : runs of the main thread, with the connections that are open.
* **`Accepts.numbered`** : the counter and the ids in every state reached.
* **`ids_unique_iff`** : when the connections that are open at the same time have different ids.
-/

namespace Axon

open Library

namespace Gate

open Codegen

namespace ClientMgr

/-! ## Arithmetic -/

lemma nextHid_eq (m : ClientMgr) : m.nextHid = (m.hid + 1) % 2 ^ 26 := by
  rw [nextHid, show 2 ^ 32 - 1 - hidThrMask <<< hidThrBits = 2 ^ 26 - 1 by decide,
    Nat.and_two_pow_sub_one_eq_mod, u32]
  omega

lemma nextHid_lt (m : ClientMgr) : m.nextHid < 2 ^ 26 := by
  rw [nextHid_eq]
  exact Nat.mod_lt _ (by decide)

lemma makeHid_eq {s h : ℕ} (hs : s < 64) (hh : h < 2 ^ 26) : makeHid s h = s * 2 ^ 26 + h := by
  rw [makeHid, hidThrBits, ← Nat.shiftLeft_add_eq_or_of_lt hh, Nat.shiftLeft_eq]
  exact u32_of_lt (by omega)

end ClientMgr

/-! ## Runs -/

/-- A connection accepted: how many were accepted before it, and its id. -/
structure Accepted where
  seq : ℕ
  hid : ℕ
deriving DecidableEq, Repr

/-- **Runs of the main thread** with `workerNum` as argument of `init`: its state, the number of
connections accepted, and those among them that are open. -/
inductive Accepts (workerNum : ℤ) : ClientMgr → ℕ → List Accepted → Prop
  | start {junk : ℕ → ThreadWorker} {mailbox : ℕ → TpipeT} {m : ClientMgr}
      (hinit : ClientMgr.init junk mailbox workerNum = .ok m) (maxConnect : ℤ)
      (started : ℕ → Bool) : Accepts workerNum (m.startWorker maxConnect started).1 0 []
  | accept {m m' : ClientMgr} {k : ℕ} {live : List Accepted} {os : Libc} {sockfd : ℤ}
      {ip port hid : ℕ} {res : WriteResult} (hrun : Accepts workerNum m k live)
      (hstep : m.onAcceptNewConnect os sockfd ip port res = .ok (m', hid)) :
      Accepts workerNum m' (k + 1) (⟨k, hid⟩ :: live)
  /-- Some connection is closed. -/
  | close {m : ClientMgr} {k : ℕ} {live : List Accepted} (hrun : Accepts workerNum m k live)
      (c : Accepted) : Accepts workerNum m k (live.erase c)
  /-- A worker has sent a message. -/
  | message {m m' : ClientMgr} {k : ℕ} {live : List Accepted} {os : Libc} {mem : ℕ → UInt8}
      {header : MsgHeader} {p : ℕ} {res : WriteResult} (hrun : Accepts workerNum m k live)
      (hstep : m.onMailboxRead os mem header p res = .ok m') : Accepts workerNum m' k live
  /-- The mailbox of a worker is read or written from its other side. -/
  | mailbox {m : ClientMgr} {k : ℕ} {live : List Accepted} (hrun : Accepts workerNum m k live)
      (i : ℕ) (t : TpipeT) : Accepts workerNum (m.withMailbox i t) k live

/-- What holds in every state of a run: nobody counts the connections of a worker, and the id of a
connection is the number of those before it, as far as 26 bits go. -/
structure Numbered (m : ClientMgr) (k : ℕ) (live : List Accepted) : Prop where
  idle : ∀ i < m.workerNum, (m.workers i).activeConn = 0
  hid : m.hid = (k + 1) % 2 ^ 26
  ids : ∀ c ∈ live, c.hid = (c.seq + 2) % 2 ^ 26

lemma Numbered.congr {m m' : ClientMgr} {k : ℕ} {live : List Accepted} (h : Numbered m k live)
    (hsame : ClientMgr.SameCounts m m') : Numbered m' k live where
  idle i hi := (hsame.activeConn i).trans (h.idle i (hsame.workerNum ▸ hi))
  hid := hsame.hid.trans h.hid
  ids := h.ids

lemma numbered_start {junk : ℕ → ThreadWorker} {mailbox : ℕ → TpipeT} {workerNum maxConnect : ℤ}
    {started : ℕ → Bool} {m : ClientMgr}
    (hinit : ClientMgr.init junk mailbox workerNum = .ok m) :
    Numbered (m.startWorker maxConnect started).1 0 [] := by
  obtain ⟨-, -, hinit⟩ := bind_eq_ok hinit
  obtain rfl := Except.ok.inj hinit
  refine ⟨fun i hi => ?_, rfl, by simp⟩
  rw [ClientMgr.startWorker, if_neg nofun] at hi ⊢
  dsimp only at hi ⊢
  rw [if_pos hi]

/-- The id given out next. -/
lemma Numbered.next {m : ClientMgr} {k : ℕ} {live : List Accepted} (h : Numbered m k live) :
    m.nextHid = (k + 2) % 2 ^ 26 ∧
      ClientMgr.makeHid m.selectWorker m.nextHid = (k + 2) % 2 ^ 26 := by
  have hnext : m.nextHid = (k + 2) % 2 ^ 26 := by
    rw [ClientMgr.nextHid_eq, h.hid, Nat.mod_add_mod]
  refine ⟨hnext, ?_⟩
  rw [ClientMgr.selectWorker_eq_zero h.idle, ClientMgr.makeHid_eq (by decide) m.nextHid_lt, hnext,
    Nat.zero_mul, Nat.zero_add]

lemma Numbered.accept {m m' : ClientMgr} {k : ℕ} {live : List Accepted} {os : Libc} {sockfd : ℤ}
    {ip port hid : ℕ} {res : WriteResult} (h : Numbered m k live)
    (hstep : m.onAcceptNewConnect os sockfd ip port res = .ok (m', hid)) :
    Numbered m' (k + 1) (⟨k, hid⟩ :: live) := by
  obtain ⟨rfl, t, rfl⟩ := ClientMgr.onAccept_eq_ok hstep
  obtain ⟨hnext, hmake⟩ := h.next
  have hmid : Numbered { m with hid := m.nextHid } (k + 1)
      (⟨k, ClientMgr.makeHid m.selectWorker m.nextHid⟩ :: live) := by
    refine ⟨h.idle, hnext, fun c hc => ?_⟩
    rcases List.mem_cons.mp hc with rfl | hc
    · exact hmake
    · exact h.ids c hc
  exact hmid.congr (ClientMgr.sameCounts_withMailbox _ _ t)

/-- **The counter and the ids** in every state of every run. -/
lemma Accepts.numbered {workerNum : ℤ} {m : ClientMgr} {k : ℕ} {live : List Accepted}
    (h : Accepts workerNum m k live) : Numbered m k live := by
  induction h with
  | start hinit _ _ => exact numbered_start hinit
  | accept _ hstep ih => exact ih.accept hstep
  | close _ c ih => exact ⟨ih.idle, ih.hid, fun c' hc' => ih.ids c' (List.mem_of_mem_erase hc')⟩
  | message _ hstep ih => exact ih.congr (ClientMgr.sameCounts_onMailboxRead hstep)
  | mailbox _ i t ih => exact ih.congr (ClientMgr.sameCounts_withMailbox _ i t)

/-- Two connections have different ids unless a multiple of `2 ^ 26` accepts lies between them. -/
lemma Numbered.hid_ne_iff {m : ClientMgr} {k : ℕ} {live : List Accepted} (h : Numbered m k live)
    {c c' : Accepted} (hc : c ∈ live) (hc' : c' ∈ live) :
    c.hid ≠ c'.hid ↔ ¬ c.seq ≡ c'.seq [MOD 2 ^ 26] := by
  rw [h.ids c hc, h.ids c' hc']
  exact not_congr ⟨Nat.ModEq.add_right_cancel' 2, fun heq => heq.add_right 2⟩

/-- **When ids are unique.**  In every state reached by accepts, closings in any order and messages
from the workers: the connections that are open have different ids if and only if no two of them
were accepted a multiple of `2 ^ 26` connections apart. -/
theorem ids_unique_iff {workerNum : ℤ} {m : ClientMgr} {k : ℕ} {live : List Accepted}
    (h : Accepts workerNum m k live) :
    (live.map Accepted.hid).Nodup ↔
      live.Pairwise fun c c' => ¬ c.seq ≡ c'.seq [MOD 2 ^ 26] := by
  rw [List.Nodup, List.pairwise_map]
  exact List.Pairwise.iff_of_mem fun hc hc' => h.numbered.hid_ne_iff hc hc'

/-! ## A counter that has wrapped -/

/-- A run that goes on with another accept. -/
lemma Accepts.accept_next {workerNum : ℤ} {m : ClientMgr} {k n : ℕ} {live : List Accepted}
    (h : Accepts workerNum m k live) (hin : m.inited = true) (hcan : m.CanPost 0 (n + 24)) :
    ∃ m' hid, Accepts workerNum m' (k + 1) (⟨k, hid⟩ :: live) ∧ m'.inited = true ∧
      m'.CanPost 0 n := by
  have hsel := ClientMgr.selectWorker_eq_zero h.numbered.idle
  have hroom := hcan.room
  obtain ⟨t, hstep, -, hcan'⟩ := ClientMgr.onAccept_posts zeroLibc_total hin
    (hsel ▸ ⟨hcan.poller, hcan.refines, by
      rw [show width pbCgateNewconn.fields = 18 from rfl]
      omega⟩) 5 0x7F000001 80 .again
  rw [hsel] at hstep hcan'
  exact ⟨_, _, h.accept hstep, hin, hcan' n hcan⟩

/-- A main thread with one worker that has accepted nothing yet. -/
lemma accepts_nothing {n : ℕ} (hn : n < 2 ^ 31 - 2) :
    ∃ m, Accepts 1 m 0 [] ∧ m.inited = true ∧ m.CanPost 0 n := by
  obtain ⟨t, hnew⟩ : ∃ t, TpipeT.new zeroLibc TpipeT.someFds = .ok t := ⟨_, rfl⟩
  have hinit : ClientMgr.init (fun _ => ⟨0, 0, .null, t⟩) (fun _ => t) 1 = .ok _ := rfl
  exact ⟨_, .start hinit 100 fun _ => true, rfl,
    TpipeT.canWrite_init hnew ClientMgr.side (by omega)⟩

/-- The first connection stays open, all others are closed at once. -/
lemma accepts_first_open (k : ℕ) : ∀ n, 24 * k + 24 + n < 2 ^ 31 - 2 →
    ∃ m hid, Accepts 1 m (k + 1) [⟨0, hid⟩] ∧ m.inited = true ∧ m.CanPost 0 n := by
  induction k with
  | zero =>
      intro n hn
      obtain ⟨m, hrun, hin, hcan⟩ := accepts_nothing (n := n + 24) (by omega)
      exact hrun.accept_next hin hcan
  | succ k ih =>
      intro n hn
      obtain ⟨m, hid, hrun, hin, hcan⟩ := ih (n + 24) (by omega)
      obtain ⟨m', hid', hrun', hin', hcan'⟩ := hrun.accept_next hin hcan
      refine ⟨m', hid, ?_, hin', hcan'⟩
      have hclose := hrun'.close ⟨k + 1, hid'⟩
      rwa [List.erase_cons_head] at hclose

/-- Two connections, accepted one after the other, that are open at the same time. -/
theorem ids_unique_two : ∃ m c c', Accepts 1 m 2 [c, c'] ∧ c.hid ≠ c'.hid := by
  obtain ⟨m, hid, hrun, hin, hcan⟩ := accepts_first_open 0 24 (by decide)
  obtain ⟨m', hid', hrun', -, -⟩ := hrun.accept_next hin hcan (n := 0)
  have hids := (ids_unique_iff hrun').mpr (by simp [Nat.ModEq])
  exact ⟨m', _, _, hrun', by simpa using hids⟩

/-- **The counter wraps**: after `2 ^ 26` accepts the next connection is given the id of the first
one, which is still open. -/
theorem ids_unique_fails : ∃ m c c', Accepts 1 m (2 ^ 26 + 1) [c, c'] ∧ c.seq = 2 ^ 26 ∧
    c'.seq = 0 ∧ ¬ ([c, c'].map Accepted.hid).Nodup := by
  obtain ⟨m, hid, hrun, hin, hcan⟩ := accepts_first_open (2 ^ 26 - 1) 24 (by decide)
  obtain ⟨m', hid', hrun', -, -⟩ := hrun.accept_next hin hcan (n := 0)
  have hids := hrun'.numbered.ids
  have hnew : hid' = (2 ^ 26 + 2) % 2 ^ 26 := hids ⟨2 ^ 26, hid'⟩ List.mem_cons_self
  have hold : hid = (0 + 2) % 2 ^ 26 := hids ⟨0, hid⟩ (by simp)
  refine ⟨m', _, _, hrun', rfl, rfl, fun hnodup => ?_⟩
  have hne : hid' ≠ hid := by simpa using hnodup
  exact hne (by omega)

end Gate

end Axon
