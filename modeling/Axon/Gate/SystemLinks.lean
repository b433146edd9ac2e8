import Axon.Gate.System
import Axon.Gate.CloseRouting
import Axon.Gate.WorkerConnects

/-!
# The mailboxes of the gate

Whatever the threads do, every mailbox carries the frames its two sides have written, and what is on
its way are prefixes of them.

* **`System.Linked`** : the mailboxes, the frames written and the bytes received.
* **`System.Linked.post`** : the main thread writes a message to a worker.
* **`System.Linked.report`** : a worker writes a message to the main thread.
* **`System.Linked.evWrite`**, **`evRead`** : flushes and reads of either side.
* **`System.Linked.next_written`** : a callback is about a frame the other side has written.
-/

namespace Axon

open Library

namespace Gate

open Codegen

namespace System

/-- The frames of all mailboxes after one more has been written on a side of one of them. -/
def addFrame (W : ℕ → Fin 2 → List SentFrame) (i : ℕ) (side : Fin 2) (f : SentFrame) :
    ℕ → Fin 2 → List SentFrame :=
  Function.update W i (Function.update (W i) side (W i side ++ [f]))

section AddFrame

variable (W : ℕ → Fin 2 → List SentFrame) {i : ℕ} {side : Fin 2} (f : SentFrame)

lemma addFrame_self : addFrame W i side f i side = W i side ++ [f] := by
  simp [addFrame]

lemma addFrame_of_ne_side {d : Fin 2} (h : d ≠ side) : addFrame W i side f i d = W i d := by
  simp [addFrame, h]

lemma addFrame_of_ne {j : ℕ} (h : j ≠ i) : addFrame W i side f j = W j := by
  simp [addFrame, h]

lemma prefix_addFrame (j : ℕ) (d : Fin 2) : W j d <+: addFrame W i side f j d := by
  by_cases hj : j = i
  · subst hj
    by_cases hd : d = side
    · subst hd
      rw [addFrame_self]
      exact List.prefix_append _ _
    · rw [addFrame_of_ne_side W f hd]
  · rw [addFrame_of_ne W f hj]

/-- A frame of the new lists is the new one, or an old one. -/
lemma mem_addFrame {j : ℕ} {d : Fin 2} {g : SentFrame} (h : g ∈ addFrame W i side f j d) :
    g ∈ W j d ∨ (j = i ∧ d = side ∧ g = f) := by
  by_cases hj : j = i
  · subst hj
    by_cases hd : d = side
    · subst hd
      rw [addFrame_self, List.mem_append, List.mem_singleton] at h
      exact h.imp_right fun hg => ⟨rfl, rfl, hg⟩
    · rw [addFrame_of_ne_side W f hd] at h
      exact Or.inl h
  · rw [addFrame_of_ne W f hj] at h
    exact Or.inl h

end AddFrame

/-- The bytes of the frames written on the sides of a mailbox. -/
def encoded (W : Fin 2 → List SentFrame) (side : Fin 2) : List UInt8 :=
  (W side).flatMap SentFrame.encode

lemma encoded_mono {W W' : Fin 2 → List SentFrame} {side : Fin 2} (h : W side <+: W' side) :
    encoded W side <+: encoded W' side := by
  obtain ⟨X, hX⟩ := h
  rw [encoded, encoded, ← hX, List.flatMap_append]
  exact List.prefix_append _ _

lemma encoded_addFrame (W : ℕ → Fin 2 → List SentFrame) (i : ℕ) (side : Fin 2) (f : SentFrame) :
    encoded (addFrame W i side f i) = Function.update (encoded (W i)) side
      (encoded (W i) side ++ SentFrame.encode f) := by
  funext d
  by_cases hd : d = side
  · subst hd
    simp [encoded, addFrame_self]
  · simp [encoded, addFrame_of_ne_side W f hd, hd]

/-- A piece the socket takes. -/
lemma takenBy_prefix (X : List UInt8) (res : WriteResult) : TpipeT.takenBy X res <+: X := by
  cases res with
  | accept n => exact List.take_prefix n X
  | _ => exact List.nil_prefix

/-- **The threads are linked**: `W` are the frames written into the mailboxes of the workers, and
`B` the bytes that have been received from each side. -/
structure Linked (s : System) (W : ℕ → Fin 2 → List SentFrame) (B : ℕ → Fin 2 → List UInt8) :
    Prop where
  inited : s.main.inited = true
  pos : 0 < s.main.workerNum
  le : s.main.workerNum ≤ 32
  shared : ∀ i, (s.worker i).mailbox = s.pipe i
  carries : ∀ i < s.main.workerNum, (s.pipe i).Carries (encoded (W i)) (B i)
  stream : ∀ i < s.main.workerNum, ∀ side,
    B i side ++ s.inFlight i side = (s.chunks i side).flatten
  taken : ∀ i < s.main.workerNum, ∀ side, ∀ c ∈ s.chunks i side, c <+: encoded (W i) side

namespace Linked

variable {s : System} {W : ℕ → Fin 2 → List SentFrame} {B : ℕ → Fin 2 → List UInt8}
  (h : s.Linked W B)

include h

/-- The mailboxes have been written to, and the sockets have taken prefixes of what they hold. -/
lemma absorb {s' : System} {t : ℕ → TpipeT} {cs : ℕ → Fin 2 → List (List UInt8)}
    {W' : ℕ → Fin 2 → List SentFrame} (hin : s'.main.inited = s.main.inited)
    (hnum : s'.main.workerNum = s.main.workerNum) (hchunks : s'.chunks = s.chunks)
    (hflight : s'.inFlight = s.inFlight) (hW : ∀ i side, W i side <+: W' i side)
    (ht : ∀ i < s.main.workerNum, (t i).Carries (encoded (W' i)) (B i))
    (hcs : ∀ i < s.main.workerNum, ∀ side, ∀ c ∈ cs i side, c <+: encoded (W' i) side) :
    (s'.absorb t cs).Linked W' B where
  inited := hin.trans h.inited
  pos := hnum ▸ h.pos
  le := hnum ▸ h.le
  shared i := rfl
  carries i hi := ht i (hnum ▸ hi)
  stream i hi side := by
    show B i side ++ (s'.inFlight i side ++ _) = (s'.chunks i side ++ cs i side).flatten
    rw [hflight, hchunks, List.flatten_append, ← List.append_assoc, h.stream i (hnum ▸ hi) side]
  taken i hi side c hc := by
    rcases List.mem_append.mp hc with hc | hc
    · rw [hchunks] at hc
      exact (h.taken i (hnum ▸ hi) side c hc).trans (encoded_mono (hW i side))
    · exact hcs i (hnum ▸ hi) side c hc

section Write

variable {i : ℕ} (hi : i < s.main.workerNum) (hroom : s.Room) {os : Libc} (ht : os.Total)
  {body : Body GateField} (hfit : width body.fields < 58)

include hi hroom ht hfit

/-- **A thread writes a message** into a mailbox: one frame, of which the socket takes a part
together with what was written before. -/
lemma write (side : Fin 2) (cmd : ℤ) (r : Record body) (res : WriteResult) :
    ∃ t sent, (s.pipe i).write os side ptCgateCtrl (cgateCtrl cmd).proto r.proto res =
        .ok (t, 0, sent) ∧
      t.Carries (encoded (addFrame W i side (gateFrame cmd r) i)) (B i) ∧
      sentBy (s.pipe i) t side res =
        [TpipeT.takenBy (encoded (addFrame W i side (gateFrame cmd r) i) side) res] := by
  have hw := (cgateCtrl cmd).proto_sized (by decide) (clear_gate _)
  have hp := r.proto_sized (Nat.lt_trans hfit (by decide)) (clear_gate body)
  have hsize : (cgateCtrl cmd).proto.calSize + r.proto.calSize = 2 + width body.fields := by
    rw [r.proto_calSize (Nat.lt_trans hfit (by decide))]
    rfl
  have hcarries := h.carries i hi
  have hend : ((s.pipe i).pinfo side).wbuf.end_ +
      ((cgateCtrl cmd).proto.calSize + r.proto.calSize) + msgHeaderLen < 2 ^ 32 - 128 := by
    have := hroom i hi side
    rw [hsize, msgHeaderLen]
    omega
  obtain ⟨t, hwrite, ht'⟩ := hcarries.write ht ptCgateCtrl hend res hw hp
  rw [show (ptCgateCtrl, Mailbox.payload (cgateCtrl cmd).proto r.proto) = gateFrame cmd r from rfl,
    ← encoded_addFrame] at ht'
  refine ⟨t, _, hwrite, ht', ?_⟩
  have hold := (hcarries.wbuf side).length_eq
  have hnew := (ht'.wbuf side).length_eq
  have hgrow : (encoded (addFrame W i side (gateFrame cmd r) i) side).length =
      (encoded (W i) side).length + (SentFrame.encode (gateFrame cmd r)).length := by
    rw [encoded_addFrame, Function.update_self, List.length_append]
  have hlen : 0 < (SentFrame.encode (gateFrame cmd r)).length := by
    rw [SentFrame.encode, List.length_append, length_packHeader, msgHeaderLen]
    omega
  rw [sentBy, if_neg (by omega), (ht'.wbuf side).bytes_eq]

/-- **The main thread posts a message** to a worker. -/
lemma post {m : ClientMgr} (hm : m.workers = s.main.workers) (hin : m.inited = s.main.inited)
    (hnum : m.workerNum = s.main.workerNum) (cmd : ℤ) (r : Record body) (res : WriteResult) :
    ∃ t, m.post os i cmd r.proto res = .ok (m.withMailbox i t) ∧
      (s.mainRan (m.withMailbox i t) res).Linked
        (addFrame W i ClientMgr.side (gateFrame cmd r)) B := by
  obtain ⟨t, sent, hwrite, hcarries, hsent⟩ := h.write hi hroom ht hfit ClientMgr.side cmd r res
  have hmail : ∀ j, j ≠ i → ((m.withMailbox i t).workers j).mailbox = s.pipe j := by
    intro j hj
    rw [ClientMgr.withMailbox]
    dsimp only
    rw [Function.update_of_ne hj, hm, pipe]
  refine ⟨t, ?_, ?_⟩
  · rw [ClientMgr.post, hm, show (s.main.workers i).mailbox = s.pipe i from rfl, hwrite]
    rw [ClientMgr.withMailbox, hm]
    rfl
  · refine h.absorb hin hnum rfl rfl (prefix_addFrame W _) (fun j hj => ?_) fun j hj d c hc => ?_
    · by_cases hji : j = i
      · subst hji
        rw [ClientMgr.withMailbox_mailbox]
        exact hcarries
      · rw [hmail j hji, addFrame_of_ne W _ hji]
        exact h.carries j hj
    · split_ifs at hc with hd
      · subst hd
        by_cases hji : j = i
        · subst hji
          rw [ClientMgr.withMailbox_mailbox, hsent, List.mem_singleton] at hc
          subst hc
          exact takenBy_prefix _ _
        · rw [hmail j hji, sentBy, if_pos rfl] at hc
          exact absurd hc List.not_mem_nil
      · exact absurd hc List.not_mem_nil

/-- **A worker sends a message** to the main thread. -/
lemma report {w w' : ConnectWorker} (hw : w.mailbox = s.pipe i) (cmd : ℤ) (r : Record body)
    {res : WriteResult} (hsend : w.sendWorkerCommand os cmd r.proto res = .ok w') :
    ∃ t, w' = { w with mailbox := t } ∧ ∀ w'' : ConnectWorker, w''.mailbox = t →
      (s.workerRan i w'' res).Linked
        (addFrame W i ConnectWorker.side (gateFrame cmd r)) B := by
  obtain ⟨t, sent, hwrite, hcarries, hsent⟩ := h.write hi hroom ht hfit ConnectWorker.side cmd r res
  rw [ConnectWorker.sendWorkerCommand, hw, hwrite] at hsend
  refine ⟨t, (Except.ok.inj hsend).symm, fun w'' hw'' => ?_⟩
  refine h.absorb rfl rfl rfl rfl (prefix_addFrame W _) (fun j hj => ?_) fun j hj d c hc => ?_
  · by_cases hji : j = i
    · subst hji
      rw [Function.update_self, hw'']
      exact hcarries
    · rw [Function.update_of_ne hji, addFrame_of_ne W _ hji]
      exact h.carries j hj
  · split_ifs at hc with hd
    · obtain ⟨rfl, rfl⟩ := hd
      rw [hw'', hsent, List.mem_singleton] at hc
      subst hc
      exact takenBy_prefix _ _
    · exact absurd hc List.not_mem_nil

end Write

/-- The main thread has run without writing to a mailbox. -/
lemma mainRan_silent {m : ClientMgr} (hm : ∀ i, (m.workers i).mailbox = s.pipe i)
    (hin : m.inited = s.main.inited) (hnum : m.workerNum = s.main.workerNum) (res : WriteResult) :
    (s.mainRan m res).Linked W B := by
  refine h.absorb hin hnum rfl rfl (fun _ _ => List.prefix_rfl) (fun i hi => ?_)
    fun i hi d c hc => ?_
  · rw [hm i]
    exact h.carries i hi
  · rw [hm i, sentBy, if_pos rfl, ite_self] at hc
    exact absurd hc List.not_mem_nil

/-- A worker has run without writing to its mailbox. -/
lemma workerRan_silent {i : ℕ} {w : ConnectWorker} (hw : w.mailbox = s.pipe i)
    (res : WriteResult) : (s.workerRan i w res).Linked W B := by
  refine h.absorb rfl rfl rfl rfl (fun _ _ => List.prefix_rfl) (fun j hj => ?_)
    fun j hj d c hc => ?_
  · rw [hw, Function.update_eq_self]
    exact h.carries j hj
  · rw [hw, sentBy, if_pos rfl, ite_self] at hc
    exact absurd hc List.not_mem_nil

/-- A callback has been run. -/
lemma handle (i : ℕ) (side : Fin 2) : (s.handle i side).Linked W B :=
  ⟨h.inited, h.pos, h.le, h.shared, h.carries, h.stream, h.taken⟩

/-- A side of a mailbox is flushed. -/
lemma evWrite {s' : System} {i : ℕ} {side : Fin 2} {res : WriteResult}
    (hi : i < s.main.workerNum) (hs : s.step (.evWrite i side res) = .ok s') : s'.Linked W B := by
  have hcarries := h.carries i hi
  obtain ⟨ht, htaken⟩ := hcarries.tryWrite side res
  rw [step, TpipeT.onEvWrite, TpipeT.sideOf_fd hcarries.fds side] at hs
  dsimp only at hs
  generalize (s.pipe i).tryWrite side res = flushed at hs ht htaken
  obtain rfl := Except.ok.inj hs
  refine h.absorb rfl rfl rfl rfl (fun _ _ => List.prefix_rfl) (fun j hj => ?_)
    fun j hj d c hc => ?_
  · by_cases hji : j = i
    · subst hji
      rw [Function.update_self]
      exact ht
    · rw [Function.update_of_ne hji]
      exact h.carries j hj
  · split_ifs at hc with hd
    · obtain ⟨rfl, rfl⟩ := hd
      rw [List.mem_singleton.mp hc, htaken]
      exact takenBy_prefix _ _
    · exact absurd hc List.not_mem_nil

/-- A side of a mailbox is read. -/
lemma evRead {s' : System} {os : Libc} {i : ℕ} {side : Fin 2} {n : Option ℕ} (ht : os.Total)
    (hi : i < s.main.workerNum) (hn : ∀ k ∈ n, k ≤ maxProtoLen)
    (hs : s.step (.evRead os i side n) = .ok s') : ∃ B', s'.Linked W B' := by
  have hcarries := h.carries i hi
  set r := n.map fun n => (s.inFlight i (peer side)).take n with hr
  have hlen : ∀ bytes ∈ r, bytes.length ≤ maxProtoLen := by
    intro bytes hbytes
    simp only [hr, Option.mem_def, Option.map_eq_some_iff] at hbytes
    obtain ⟨k, hk, rfl⟩ := hbytes
    exact (List.length_take_le _ _).trans (hn k hk)
  obtain ⟨t, hread, ht'⟩ := hcarries.onEvRead ht side r hlen
  have hsplit : r.getD [] ++ (s.inFlight i (peer side)).drop (n.getD 0)
      = s.inFlight i (peer side) := by
    cases n with
    | none => simp [hr]
    | some k => simp [hr]
  rw [step] at hs
  simp only [← hr, hread, ok_bind] at hs
  obtain rfl := Except.ok.inj hs
  refine ⟨Function.update B i (Function.update (B i) (peer side)
    (B i (peer side) ++ r.getD [])), h.inited, h.pos, h.le, fun _ => rfl, fun j hj => ?_,
    fun j hj d => ?_, fun j hj d c hc => ?_⟩
  · show (Function.update s.pipe i t j).Carries _ _
    by_cases hji : j = i
    · subst hji
      rw [Function.update_self, Function.update_self]
      exact ht'
    · rw [Function.update_of_ne hji, Function.update_of_ne hji]
      exact h.carries j hj
  · show _ = (s.chunks j d ++ []).flatten
    rw [List.append_nil, ← h.stream j hj d]
    by_cases hji : j = i
    · subst hji
      by_cases hd : d = peer side
      · subst hd
        simp only [Function.update_self]
        rw [List.append_assoc, hsplit]
      · simp only [Function.update_self, Function.update_of_ne hd]
    · simp only [Function.update_of_ne hji]
  · exact h.taken j hj d c (by rwa [← List.append_nil (s.chunks j d)])

/-- **A callback is about a frame the other side has written**, as long as the sockets take whole
frames. -/
lemma next_written (hwhole : s.Whole) {i : ℕ} (hi : i < s.main.workerNum) {side : Fin 2}
    (hread : ∀ f ∈ W i (peer side), SentFrame.Readable f) {f : Frame}
    (hf : s.next i side = some f) :
    ∃ g ∈ W i (peer side), f = (SentFrame.header g, g.2) := by
  have hcb := ((h.carries i hi).reading (peer side)).callbacks
  rw [peer_peer] at hcb
  have hmem : f ∈ (readFrames (B i (peer side))).1 := by
    rw [next, hcb] at hf
    exact List.mem_of_getElem? hf
  exact called_back hread (h.taken i hi _) (hwhole i hi _) (h.stream i hi _) f hmem

end Linked

/-- **A gate that has just been started is linked.** -/
lemma Started.linked {s : System} (h : s.Started) :
    s.Linked (fun _ _ => []) fun _ _ => [] := by
  refine ⟨h.inited, h.pos, h.le, h.shared, fun i hi => ?_, fun i hi d => ?_, fun i hi d c hc => ?_⟩
  · obtain ⟨os, a, junk, junkStack, timetick, maxConnect, rsize, wsize, sv, t, hnew, hsv, hstart⟩ :=
      h.worker i hi
    obtain ⟨p, p', v, -, -, hw⟩ := ConnectWorker.start_eq_ok hstart
    rw [← h.shared i, hw]
    exact TpipeT.carries_init hsv hnew
  · rw [h.inFlight, h.chunks]
    rfl
  · rw [h.chunks] at hc
    exact absurd hc List.not_mem_nil

end System

end Gate

end Axon
