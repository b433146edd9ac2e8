import Axon.Codegen.CodecWide
import Axon.Gate.GateMessages

/-!
# A new connection on its way to a worker

The main thread accepts a socket, and posts a message with the descriptor, the id and the address of
the peer; the worker unpacks it and calls `new_connect`.

* **`ClientMgr.onAccept_posts`** : what the main thread puts into the mailbox of the worker.
* **`newconnArgs_delivered`** : the arguments the worker calls `new_connect` with.
* **`wide_fields_iff`** : which 64-bit values, and which addresses among them, get through.
-/

namespace Axon

open Library

namespace Gate

open Codegen

namespace ClientMgr

/-- The main thread can write a message of `n` bytes into the mailbox of a worker. -/
def CanPost (m : ClientMgr) (idx n : ℕ) : Prop := (m.workers idx).mailbox.CanWrite side (2 + n)

/-- The bytes in the mailbox of a worker that the main thread has written. -/
def posted (m : ClientMgr) (idx : ℕ) : List UInt8 :=
  ((m.workers idx).mailbox.pinfo side).wbuf.bytes

/-- The state after a message to the worker `idx` that has left its mailbox as `t`. -/
def withMailbox (m : ClientMgr) (idx : ℕ) (t : TpipeT) : ClientMgr :=
  { m with workers := Function.update m.workers idx { m.workers idx with mailbox := t } }

lemma withMailbox_mailbox (m : ClientMgr) (idx : ℕ) (t : TpipeT) :
    ((m.withMailbox idx t).workers idx).mailbox = t := by
  simp [withMailbox]

lemma withMailbox_posted (m : ClientMgr) (idx : ℕ) (t : TpipeT) :
    (m.withMailbox idx t).posted idx = (t.pinfo side).wbuf.bytes := by
  rw [posted, withMailbox_mailbox]

section Post

variable {os : Libc} {m : ClientMgr} (ht : os.Total)

include ht

/-- A message to a worker is one frame in its mailbox, which takes no more room than the frame. -/
lemma post_appends {body : Body GateField} (hfit : width body.fields < 126) {idx : ℕ}
    (hcan : m.CanPost idx (width body.fields)) (cmd : ℤ) (r : Record body) (res : WriteResult) :
    ∃ t, m.post os idx cmd r.proto res = .ok (m.withMailbox idx t) ∧
      (m.withMailbox idx t).posted idx = m.posted idx ++ SentFrame.encode (gateFrame cmd r) ∧
      ∀ n, m.CanPost idx (n + width body.fields + 6) → (m.withMailbox idx t).CanPost idx n := by
  obtain ⟨t, sent, hwrite, hpoller, hrefines, hend⟩ := write_gateFrame hfit ht hcan cmd r res
  refine ⟨t, ?_, ?_, fun n hn => ?_⟩
  · rw [post, hwrite]
    rfl
  · rw [withMailbox_posted, hrefines.bytes_eq]
    rfl
  · have hroom := hn.room
    rw [msgHeaderLen] at hroom hend
    rw [CanPost, withMailbox_mailbox]
    refine ⟨hpoller, ?_, ?_⟩
    · rw [hrefines.bytes_eq]
      exact hrefines
    · rw [msgHeaderLen]
      omega

/-- **An accepted connection is posted to the worker selected**, with the id given out. -/
lemma onAccept_posts (hin : m.inited = true)
    (hcan : m.CanPost m.selectWorker (width pbCgateNewconn.fields)) (sockfd : ℤ) (ip port : ℕ)
    (res : WriteResult) :
    ∃ t, m.onAcceptNewConnect os sockfd ip port res =
        .ok (({ m with hid := m.nextHid } : ClientMgr).withMailbox m.selectWorker t,
          makeHid m.selectWorker m.nextHid) ∧
      (({ m with hid := m.nextHid } : ClientMgr).withMailbox m.selectWorker t).posted
          m.selectWorker = m.posted m.selectWorker ++ SentFrame.encode (gateFrame ptCgateNewconn
            (newconn sockfd (makeHid m.selectWorker m.nextHid) ip port)) ∧
      ∀ n, m.CanPost m.selectWorker (n + 24) →
        (({ m with hid := m.nextHid } : ClientMgr).withMailbox m.selectWorker t).CanPost
          m.selectWorker n := by
  obtain ⟨t, hpost, hbytes, hroom⟩ := post_appends (m := { m with hid := m.nextHid }) ht
    (by decide) hcan ptCgateNewconn
    (newconn sockfd (makeHid m.selectWorker m.nextHid) ip port) res
  refine ⟨t, ?_, hbytes, hroom⟩
  rw [onAcceptNewConnect, rtAssert_of_pos hin, ok_bind]
  have hsel : ({ m with hid := m.nextHid } : ClientMgr).selectWorker = m.selectWorker := rfl
  dsimp only
  rw [hsel, hpost]
  rfl

end Post

end ClientMgr

/-! ## The worker's side -/

/-- **What the worker calls `new_connect` with**: the fields of the message, the address as it comes
out of `UNPACK_INT64`. -/
lemma newconnArgs_delivered {r : Record pbCgateNewconn} {mem : ℕ → UInt8} {header : MsgHeader}
    {p : ℕ} (h : Delivered (gateFrame ptCgateNewconn r) mem header p) :
    ConnectWorker.newconnArgs mem header p = some (r.member .fd,
      FieldType.int32.convert (r.member .hid),
      decodeField .uint64 (byteAt (leBytes 8 (r.member .ip))) 0, r.member .port) := by
  have hfit : width pbCgateNewconn.fields < 126 := by decide
  obtain ⟨pkt, hunpack, hfields, hsmall⟩ := h.unpack_inner hfit
  have hfd := hsmall ⟨.fd, .int32⟩ (by simp [pbCgateNewconn]) (by decide)
  have hhid := hsmall ⟨.hid, .uint32⟩ (by simp [pbCgateNewconn]) (by decide)
  have hport := hsmall ⟨.port, .uint16⟩ (by simp [pbCgateNewconn]) (by decide)
  have hip := hfields ⟨.ip, .uint64⟩ (by simp [pbCgateNewconn])
  dsimp only at hfd hhid hport hip
  rw [ConnectWorker.newconnArgs, h.worker_dispatch hfit (by decide)]
  dsimp only
  rw [if_pos rfl, if_pos rfl, hunpack]
  dsimp only
  rw [if_neg (by omega), hfd, hhid, hport, hip]
  rfl

/-- **The address of a peer arrives**: when the main thread accepts a connection from it, the frame
posted to the worker makes the worker call `new_connect` with the same address. -/
def IpArrives (ip : ℕ) : Prop :=
  ∀ (os : Libc) (m : ClientMgr) (sockfd : ℤ) (port : ℕ) (res : WriteResult), os.Total →
    m.inited = true → m.CanPost m.selectWorker (width pbCgateNewconn.fields) →
    ∃ m' hid, m.onAcceptNewConnect os sockfd ip port res = .ok (m', hid) ∧
      m'.posted m.selectWorker = m.posted m.selectWorker ++
        SentFrame.encode (gateFrame ptCgateNewconn (ClientMgr.newconn sockfd hid ip port)) ∧
      ∀ mem header p,
        Delivered (gateFrame ptCgateNewconn (ClientMgr.newconn sockfd hid ip port)) mem header p →
        ∃ fd hid' port', ConnectWorker.newconnArgs mem header p = some (fd, hid', (ip : ℤ), port')

/-- A main thread with one worker and a new mailbox. -/
def someMgr (t : TpipeT) : ClientMgr where
  workerNum := 1
  inited := true
  hid := 1
  workers := fun _ => ⟨0, 100, .active, t.init ClientMgr.side true⟩
  listens := 0

lemma canPost_someMgr {t : TpipeT} (h : TpipeT.new zeroLibc TpipeT.someFds = .ok t) (idx : ℕ)
    {n : ℕ} (hn : n < 2 ^ 16) : (someMgr t).CanPost idx n :=
  TpipeT.canWrite_init h ClientMgr.side (by omega)

lemma ipArrives_iff (ip : UInt64) : IpArrives ip.toNat ↔ WideSafe ip.toNat := by
  have hrange : FieldType.uint64.InRange ip.toNat := by
    have := ip.toNat_lt
    rw [FieldType.InRange, FieldType.convert]
    omega
  have hmember : ∀ sockfd hid port,
      (ClientMgr.newconn sockfd hid ip.toNat port).member .ip = ip.toNat :=
    fun _ _ _ => hrange
  constructor
  · intro h
    have hnew : TpipeT.new zeroLibc TpipeT.someFds = .ok _ := rfl
    obtain ⟨m', hid, -, -, harr⟩ := h zeroLibc (someMgr _) 5 80 .again zeroLibc_total rfl
      (canPost_someMgr hnew _ (by decide))
    obtain ⟨fd, hid', port', hargs⟩ := harr _ _ 0 (delivered_byteAt _)
    rw [newconnArgs_delivered (delivered_byteAt _), hmember] at hargs
    have hback := (Prod.mk.inj (Prod.mk.inj (Prod.mk.inj (Option.some.inj hargs)).2).2).1
    exact (decode64_leBytes_iff hrange).mp hback
  · intro hsafe os m sockfd port res ht hin hcan
    obtain ⟨t, haccept, hposted, -⟩ := ClientMgr.onAccept_posts ht hin hcan sockfd ip.toNat port res
    refine ⟨_, _, haccept, hposted, fun mem header p hdel => ?_⟩
    rw [newconnArgs_delivered hdel, hmember, (decode64_leBytes_iff hrange).mpr hsafe]
    exact ⟨_, _, _, rfl⟩

/-- **Which 64-bit values get through.**  For every message none of whose members is hidden by a
variable of the emitted functions, and all its values: `unpack` of what `pack` stored restores the
64-bit fields if and only if each of them is safe, that is has four lower bytes below 128 and
nothing above them, or all bits set; in particular the address of an accepted connection arrives at
`new_connect` if and only if it is safe. -/
theorem wide_fields_iff {ν : Type} [DecidableEq ν] [Named ν] {body : Body ν}
    (hclear : body.Clear) (r : Record body) (ip : UInt64) :
    (WideRestored r ↔ ∀ f ∈ body.fields, f.type = .uint64 → WideSafe (r.member f.name)) ∧
    (IpArrives ip.toNat ↔ WideSafe ip.toNat) :=
  ⟨wideRestored_iff hclear r, ipArrives_iff ip⟩

/-- The address of the loopback interface arrives. -/
theorem wide_fields_loopback : IpArrives 0x7F000001 :=
  (wide_fields_iff (clear_gate _) (cgateCtrl 0) 0x7F000001).2.mpr (by decide)

/-- The address 192.168.0.1 does not: its first byte is a negative `char`. -/
theorem wide_fields_fails :
    ¬ WideRestored (ClientMgr.newconn 5 1 0xC0A80001 80) ∧ ¬ IpArrives 0xC0A80001 := by
  constructor
  · intro h
    have hsafe := (wideRestored_iff (clear_gate _) _).mp h ⟨.ip, .uint64⟩
      (by simp [pbCgateNewconn]) rfl
    exact absurd hsafe (by decide)
  · intro h
    exact absurd ((ipArrives_iff 0xC0A80001).mp h) (by decide)

end Gate

end Axon
