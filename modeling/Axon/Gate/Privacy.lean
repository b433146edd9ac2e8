import Axon.Gate.Echo
import Axon.Gate.Isolation

/-!
# What clients get to see of each other

The slots of a worker are handed out again and keep their buffers, a slot may be given back twice,
and a registration with the poller may outlive the connection it was made for, so that an event of
one descriptor can reach the connection on another.  Nevertheless nothing that comes from a client
goes to anybody else.

* **`Drained`** : between two events no slot holds a byte, whether it is in use or not.
* **`ConnectWorker.heard`** : what a read event reads, and from which descriptor.
* **`System.Hears`** : the runs of the gate, with what its workers have read.
* **`clients_private`** : what is written to a descriptor is what was read from it.
-/

namespace Axon

open Library

/-- The manager and the buffers of a connection. -/
def Connect.stock (c : Connect) : Option ℕ × Option BufferT × Option BufferT :=
  (c.mgr, c.rbuf, c.wbuf)

namespace Gate

open Codegen

/-! ## The slots -/

/-- The capacity a read buffer can get to, whatever size its worker was made with. -/
def rbufMax : ℕ := 2 ^ 31 + 2176

/-- **A slot between two events**: its buffers hold nothing, and once it has been used they are
there. -/
structure Drained (c : Connect) : Prop where
  rbuf : Calm rbufMax c
  wbuf : ∀ b, c.wbuf = some b → b.Refines []
  made : c.mgr ≠ none → c.rbuf ≠ none

namespace Drained

variable {c c' : Connect}

lemma held_eq (h : Drained c) : held c = [] := by
  have hr : c.rbuf.elim [] BufferT.bytes = [] := by
    cases hb : c.rbuf with
    | none => rfl
    | some b => exact (h.rbuf b hb).1.bytes_eq
  have hw : c.wbuf.elim [] BufferT.bytes = [] := by
    cases hb : c.wbuf with
    | none => rfl
    | some b => exact (h.wbuf b hb).bytes_eq
  rw [held, hr, hw, List.append_nil]

lemma congr (h : Drained c) (hstock : c'.stock = c.stock) : Drained c' := by
  have hmgr : c'.mgr = c.mgr := congrArg Prod.fst hstock
  have hr : c'.rbuf = c.rbuf := congrArg (fun x => x.2.1) hstock
  have hw : c'.wbuf = c.wbuf := congrArg (fun x => x.2.2) hstock
  refine ⟨fun b hb => h.rbuf b (hr ▸ hb), fun b hb => h.wbuf b (hw ▸ hb), fun hused => ?_⟩
  rw [hr]
  exact h.made (hmgr ▸ hused)

/-- The connection has another read buffer, as empty. -/
lemma withRbuf (h : Drained c) {b : BufferT} (hr : b.Refines []) (hbd : b.Bounded rbufMax) :
    Drained { c with rbuf := some b } := by
  refine ⟨fun b' hb' => ?_, h.wbuf, fun _ => by simp⟩
  obtain rfl := Option.some.inj hb'
  exact ⟨hr, hbd⟩

/-- `Connect::init` throws away whatever the buffers held. -/
lemma init (h : Drained c) {os : Libc} {m : Option ℕ} {fd ret : ℤ} {rsize wsize : ℕ}
    (hinit : c.init os m fd (i32 rsize) (i32 wsize) = .ok (c', ret)) : Drained c' := by
  have hsizes : 0 < i32 rsize ∧ 0 < i32 wsize := by
    rw [Connect.init] at hinit
    obtain ⟨_, -, hinit⟩ := bind_eq_ok hinit
    obtain ⟨_, hpos, -⟩ := bind_eq_ok hinit
    exact (rtAssert_eq_ok hpos).2
  have hlt : ∀ n, i32 n < 2 ^ 31 := by
    intro n
    rw [i32, u32]
    split_ifs <;> omega
  have hr := hlt rsize
  have hw := hlt wsize
  obtain ⟨-, -, -, rb, wb, hrb, hwb, rfl⟩ := ConnectContainer.init_eq_ok hinit
  have hcalm := readyBuffer_calm h.rbuf (by omega) (by rw [rbufMax]; omega) (by decide) hrb
  have hempty := readyBuffer_refines (fun b hb => ⟨[], h.wbuf b hb⟩) (by omega) hwb
  refine ⟨fun b hb => ?_, fun b hb => ?_, fun _ => by simp⟩
  · obtain rfl := Option.some.inj hb
    exact hcalm
  · obtain rfl := Option.some.inj hb
    exact hempty

end Drained

/-! ## The events of a worker -/

namespace ConnectWorker

variable {w w' : ConnectWorker} {os : Libc}

/-- No slot of the worker holds a byte. -/
def Clear (w : ConnectWorker) : Prop := ∀ k, Drained (w.container.connects k)

/-- The worker has written these pieces back, and holds nothing. -/
structure Passes (w w' : ConnectWorker) (pieces : List (ℤ × List UInt8)) : Prop where
  echoed : w'.echoed = w.echoed ++ pieces
  clear : w'.Clear

/-- An event that has nothing to do with clients. -/
lemma Clear.passes (h : w.Clear) (hcon : w'.container = w.container)
    (hecho : w'.echoed = w.echoed) : Passes w w' [] := by
  refine ⟨by rw [hecho, List.append_nil], fun k => ?_⟩
  rw [hcon]
  exact h k

/-- What an event of `do_poll` reads: the descriptor of the connection it is for, and the bytes. -/
def heard (w : ConnectWorker) (fd : ℤ) (res : ReadResult) : List (ℤ × List UInt8) :=
  match w.target fd with
  | none => []
  | some i =>
      if (w.container.connects i).status = connActive ∧ res.bytes ≠ [] then
        [((w.container.connects i).fd, res.bytes)]
      else []

/-- **A new connection** finds nothing of the one before it. -/
lemma newConnect_passes (hd : w.Clear) {a : ℕ}
    {fd hid peerIp peerPort : ℤ} {slot : Option ℕ}
    (h : w.newConnect os a fd hid peerIp peerPort = .ok (w', slot)) :
    Passes w w' [] := by
  obtain ⟨⟨t, v⟩, halloc, h⟩ := bind_eq_ok h
  dsimp only at h
  rcases ConnectContainer.allocConnect_eq_ok halloc with ⟨rfl, rfl, -⟩ | ⟨rfl, rfl, -⟩ |
    ⟨i, c, rfl, -, -, -, hinit₁, rfl⟩
  · rw [if_pos (by decide)] at h
    obtain ⟨rfl, -⟩ := Prod.mk.inj (Except.ok.inj h)
    exact hd.passes rfl rfl
  · rw [if_pos (by decide)] at h
    obtain ⟨rfl, -⟩ := Prod.mk.inj (Except.ok.inj h)
    exact hd.passes rfl rfl
  rw [if_neg (by omega)] at h
  split at h
  · exact absurd h (by simp)
  rename_i c₁ hget
  obtain ⟨⟨c₂, ret⟩, hinit₂, h⟩ := bind_eq_ok h
  obtain ⟨rfl, -⟩ := ConnectContainer.init_eq_ok hinit₂
  dsimp only at h
  rw [if_neg (by decide), Int.toNat_natCast] at h
  obtain ⟨⟨p, r⟩, -, h⟩ := bind_eq_ok h
  obtain ⟨rfl, -⟩ := Prod.mk.inj (Except.ok.inj h)
  refine ⟨(List.append_nil _).symm, fun k => ?_⟩
  rcases eq_or_ne k i with rfl | hne
  · -- the slot is made ready by `alloc_connect`, and again by `new_connect`
    have hstock : c₁.stock = c.stock := by
      rw [ConnectContainer.getConnect] at hget
      split_ifs at hget
      rw [← Option.some.inj hget, Int.toNat_natCast]
      have hcore := congrArg Connect.stock (ConnectContainer.enlist_core_self w.container k c)
      exact hcore
    have hready := (((hd k).init hinit₁).congr hstock).init hinit₂
    simp only [setConn, Function.update_self]
    exact hready.congr rfl
  · simp only [setConn, Function.update_of_ne hne]
    exact (hd k).congr (ConnectContainer.enlist_field Connect.stock (fun _ _ _ => rfl) c hne)

lemma clear_withRbuf (hd : w.Clear) (i : ℕ) {b : BufferT}
    (hr : b.Refines []) (hbd : b.Bounded rbufMax) : (w.withRbuf i b).Clear := by
  intro k
  rcases eq_or_ne k i with rfl | hne
  · simp only [withRbuf, setConn, Function.update_self]
    exact (hd k).withRbuf hr hbd
  · simp only [withRbuf, setConn, Function.update_of_ne hne]
    exact hd k

/-- A connection that is announced and closed keeps its empty buffers. -/
lemma close_passes (hd : w.Clear) {c : Connect} {vfd hid : ℤ}
    {wres : WriteResult}
    (h : (w.waitClose os c wres >>= fun w₁ => w₁.closeConnect vfd hid) = .ok w') :
    Passes w w' [] := by
  obtain ⟨w₁, hwait, hclose⟩ := bind_eq_ok h
  obtain ⟨⟨t, v, sent⟩, -, hwait⟩ := bind_eq_ok hwait
  obtain rfl := Except.ok.inj hwait
  rcases closeConnect_cases hclose with rfl | ⟨p, t, hfree, rfl⟩
  · exact hd.passes rfl rfl
  · refine ⟨(List.append_nil _).symm, fun k => (hd k).congr ?_⟩
    exact ConnectContainer.freeConnect_field Connect.stock (fun _ _ _ _ => rfl) hfree k

/-- A slot an event is for has a read buffer, with nothing in it. -/
lemma rbuf_of_target (hd : w.Clear) {fd : ℤ} {i : ℕ}
    (h : w.target fd = some i) :
    ∃ b, (w.container.connects i).rbuf = some b ∧ b.Refines [] ∧ b.Bounded rbufMax := by
  obtain ⟨b, hb⟩ := Option.ne_none_iff_exists'.mp ((hd i).made (mgr_of_target h))
  exact ⟨b, hb, (hd i).rbuf b hb⟩

/-- **A read event** that finds the connection alive: what is read goes back where it came from,
and nothing is left. -/
lemma poll_spares (hd : w.Clear) (hos : os.Total) {fd : ℤ} {i : ℕ}
    (htarget : w.target fd = some i) (hactive : (w.container.connects i).status = connActive)
    {res : ReadResult} (hlen : res.bytes.length ≤ 2048) (hres : res ≠ .fail) (errno : Bool)
    (wres : WriteResult) :
    ∃ w', w.poll os fd res errno wres = .ok w' ∧ Passes w w' (w.heard fd res) := by
  obtain ⟨b, hb, hr, hbd⟩ := rbuf_of_target hd htarget
  obtain ⟨b', hr', hbd', hread⟩ := onRead_spares hos hactive hb hr hbd (by decide) (by decide)
    errno wres hlen hres
  refine ⟨_, (poll_of_target htarget).trans hread, ?_, clear_withRbuf hd i hr' hbd'⟩
  rw [heard, htarget]
  dsimp only
  rw [echo]
  by_cases hempty : res.bytes = []
  · rw [if_pos hempty, if_neg (by simp [hempty]), List.append_nil]
  · rw [if_neg hempty, if_pos ⟨hactive, hempty⟩]

/-- **Every event of `do_poll`.** -/
lemma poll_passes (hd : w.Clear) (hos : os.Total) {fd : ℤ}
    {res : ReadResult} (hlen : res.bytes.length ≤ 2048) {errno : Bool} {wres : WriteResult}
    (h : w.poll os fd res errno wres = .ok w') :
    Passes w w' (w.heard fd res) := by
  cases htarget : w.target fd with
  | none =>
      have hnothing : w.heard fd res = [] := by rw [heard, htarget]
      rw [hnothing]
      rcases poll_of_no_target htarget h with rfl | rfl
      · exact hd.passes rfl rfl
      · exact hd.passes rfl rfl
  | some i =>
      obtain ⟨b, hb, hr, hbd⟩ := rbuf_of_target hd htarget
      by_cases hactive : (w.container.connects i).status = connActive
      · by_cases hres : res = .fail
        · subst hres
          have hnothing : w.heard fd .fail = [] := by
            rw [heard, htarget]
            exact if_neg (by simp [ReadResult.bytes])
          obtain ⟨b', hr', hbd', hread⟩ := onRead_fail hos hactive hb hr hbd (by decide)
            (by decide) errno wres
          rw [poll_of_target htarget, hread] at h
          have hpass := close_passes (w := (w.withRbuf i b')) (clear_withRbuf hd i hr' hbd') h
          rw [hnothing]
          exact ⟨hpass.echoed, hpass.clear⟩
        · obtain ⟨w₁, hpoll, hpass⟩ := poll_spares hd hos htarget hactive hlen hres errno wres
          obtain rfl := Except.ok.inj (hpoll.symm.trans h)
          exact hpass
      · -- the slot has been given back, and its socket is not read
        have hnothing : w.heard fd res = [] := by
          rw [heard, htarget]
          exact if_neg fun hboth => hactive hboth.1
        rw [poll_of_target htarget, onRead_inactive hactive hb] at h
        rw [hnothing]
        split_ifs at h
        · obtain rfl := Except.ok.inj h
          exact hd.passes rfl rfl
        · exact close_passes hd h

/-- It is heard from a descriptor some slot is for. -/
lemma mem_heard {fd : ℤ} {res : ReadResult} {x : ℤ × List UInt8} (h : x ∈ w.heard fd res) :
    ∃ k, (w.container.connects k).mgr ≠ none ∧ x.1 = (w.container.connects k).fd := by
  cases htarget : w.target fd with
  | none =>
      rw [heard, htarget] at h
      exact absurd h List.not_mem_nil
  | some i =>
      rw [heard, htarget] at h
      dsimp only at h
      split_ifs at h
      · rw [List.mem_singleton.mp h]
        exact ⟨i, mgr_of_target htarget, rfl⟩
      · exact absurd h List.not_mem_nil

/-- A worker that has just been started. -/
lemma clear_start {a : ℕ} {junk : ℤ → PollerEntry} {junkStack : ℕ → ℤ} {timetick idx : ℤ}
    {maxConnect rsize wsize : ℕ} {mailbox : TpipeT}
    (h : start os a junk junkStack timetick maxConnect rsize wsize mailbox idx = .ok w) :
    w.echoed = [] ∧ w.Clear := by
  obtain ⟨p, p', v, -, -, rfl⟩ := start_eq_ok h
  refine ⟨rfl, fun k => ?_⟩
  have hnew : Drained Connect.new :=
    ⟨fun b hb => absurd hb (by simp [Connect.new]), fun b hb => absurd hb (by simp [Connect.new]),
      fun hused => absurd rfl hused⟩
  rw [ConnectContainer.new]
  dsimp only
  split_ifs
  · exact hnew.congr rfl
  · exact hnew

end ConnectWorker

/-! ## The gate -/

namespace System

/-- What an event lets a worker hear. -/
def heard (s : System) (j : ℕ) : Event → List (ℤ × List UInt8)
  | .poll _ i fd res _ _ => if j = i then (s.worker i).heard fd res else []
  | _ => []

/-- `::read` on the socket of a client gives no more than it was asked for. -/
def Event.Modest : Event → Prop
  | .poll _ _ _ res _ _ => res.bytes.length ≤ 2048
  | _ => True

/-- **The runs of the gate with what its workers have read**: each piece with the descriptor it was
read from, in the order of the calls of `::read`. -/
inductive Hears (s₀ : System) : System → (ℕ → List (ℤ × List UInt8)) → Prop
  | refl : Hears s₀ s₀ fun _ => []
  | step {s s' : System} {log : ℕ → List (ℤ × List UInt8)} {e : Event} (h : Hears s₀ s log)
      (hwhole : s.Whole) (hf : s.Fair e) (hmodest : e.Modest) (hs : s.step e = .ok s') :
      Hears s₀ s' fun j => log j ++ s.heard j e

lemma Started.hears {s : System} (_ : s.Started) : s.Hears s fun _ => [] := .refl

lemma Hears.run {s₀ s : System} {log : ℕ → List (ℤ × List UInt8)} (h : s₀.Hears s log) :
    Run s₀ s := by
  induction h with
  | refl => exact .refl
  | step _ hwhole hf _ hs ih => exact ih.next hs hwhole hf

section Steps

variable {s s' : System}

/-- A worker has run. -/
lemma workerRan_passes {i : ℕ} {w : ConnectWorker} {pieces : List (ℤ × List UInt8)}
    (hw : (s.worker i).Clear → ConnectWorker.Passes (s.worker i) w pieces) (res : WriteResult)
    (j : ℕ) (hj : (s.worker j).Clear) :
    ConnectWorker.Passes (s.worker j) ((s.workerRan i w res).worker j)
      (if j = i then pieces else []) := by
  by_cases hji : j = i
  · subst hji
    have hpass := hw hj
    rw [if_pos rfl]
    refine ⟨?_, fun k => ?_⟩
    · simpa [workerRan, absorb] using hpass.echoed
    · simpa [workerRan, absorb] using hpass.clear k
  · rw [if_neg hji]
    exact hj.passes (by simp [workerRan, absorb, hji]) (by simp [workerRan, absorb, hji])

/-- A worker has run without its clients. -/
lemma workerRan_quiet {i : ℕ} {w : ConnectWorker}
    (hw : (s.worker i).Clear → ConnectWorker.Passes (s.worker i) w []) (res : WriteResult)
    (j : ℕ) (hj : (s.worker j).Clear) :
    ConnectWorker.Passes (s.worker j) ((s.workerRan i w res).worker j) [] := by
  have hpass := workerRan_passes hw res j hj
  rwa [ite_self] at hpass

/-- **Every event**: each worker writes back what the event lets it hear, and holds nothing. -/
lemma step_passes {e : Event} (hf : s.Fair e) (hmodest : e.Modest) (hs : s.step e = .ok s') (j : ℕ)
    (hj : (s.worker j).Clear) :
    ConnectWorker.Passes (s.worker j) (s'.worker j) (s.heard j e) := by
  cases e with
  | accept os sockfd ip port res =>
      obtain ⟨⟨main, hid⟩, -, hs⟩ := bind_eq_ok hs
      obtain rfl := Except.ok.inj hs
      exact hj.passes rfl rfl
  | up os i res =>
      obtain ⟨w, hsend, hs⟩ := bind_eq_ok hs
      obtain ⟨⟨t, v, sent⟩, -, hsend⟩ := bind_eq_ok hsend
      obtain rfl := Except.ok.inj hsend
      obtain rfl := Except.ok.inj hs
      refine workerRan_quiet (fun h => ?_) res j hj
      exact h.passes rfl rfl
  | evWrite i side res =>
      obtain rfl := Except.ok.inj hs
      exact hj.passes rfl rfl
  | evRead os i side n =>
      obtain ⟨t, -, hs⟩ := bind_eq_ok hs
      obtain rfl := Except.ok.inj hs
      exact hj.passes rfl rfl
  | mainCall os i mem p res =>
      rw [step] at hs
      split at hs
      · obtain rfl := Except.ok.inj hs
        exact hj.passes rfl rfl
      · obtain ⟨main, -, hs⟩ := bind_eq_ok hs
        obtain rfl := Except.ok.inj hs
        exact hj.passes rfl rfl
  | workerCall os i a mem p =>
      rw [step] at hs
      split at hs
      · obtain rfl := Except.ok.inj hs
        exact hj.passes rfl rfl
      · obtain ⟨⟨w, slot⟩, hread, hs⟩ := bind_eq_ok hs
        obtain rfl := Except.ok.inj hs
        refine workerRan_quiet (fun h => ?_) .again j hj
        rw [ConnectWorker.onMailboxRead] at hread
        split at hread
        · obtain ⟨rfl, -⟩ := Prod.mk.inj (Except.ok.inj hread)
          exact h.passes rfl rfl
        · exact ConnectWorker.newConnect_passes h hread
  | poll os i fd res errno wres =>
      obtain ⟨w, hpoll, hs⟩ := bind_eq_ok hs
      obtain rfl := Except.ok.inj hs
      exact workerRan_passes (fun h => ConnectWorker.poll_passes h hf.1 hmodest hpoll) wres j hj
  | endTurn i =>
      obtain ⟨w, hend, hs⟩ := bind_eq_ok hs
      obtain ⟨⟨poller, log⟩, -, hend⟩ := bind_eq_ok hend
      obtain rfl := Except.ok.inj hend
      obtain rfl := Except.ok.inj hs
      refine workerRan_quiet (fun h => ?_) .again j hj
      exact h.passes rfl rfl

/-- The number of workers stays, and the connections given to them. -/
lemma step_grows {e : Event} (hs : s.step e = .ok s') :
    s'.main.workerNum = s.main.workerNum ∧ s.dispatched ⊆ s'.dispatched := by
  cases e with
  | accept os sockfd ip port res =>
      obtain ⟨⟨main, hid⟩, haccept, hs⟩ := bind_eq_ok hs
      obtain rfl := Except.ok.inj hs
      obtain ⟨-, t, rfl⟩ := ClientMgr.onAccept_eq_ok haccept
      exact ⟨rfl, List.subset_cons_self _ _⟩
  | up os i res =>
      obtain ⟨w, -, hs⟩ := bind_eq_ok hs
      obtain rfl := Except.ok.inj hs
      exact ⟨rfl, List.Subset.refl _⟩
  | evWrite i side res =>
      obtain rfl := Except.ok.inj hs
      exact ⟨rfl, List.Subset.refl _⟩
  | evRead os i side n =>
      obtain ⟨t, -, hs⟩ := bind_eq_ok hs
      obtain rfl := Except.ok.inj hs
      exact ⟨rfl, List.Subset.refl _⟩
  | mainCall os i mem p res =>
      rw [step] at hs
      split at hs
      · obtain rfl := Except.ok.inj hs
        exact ⟨rfl, List.Subset.refl _⟩
      · obtain ⟨main, hread, hs⟩ := bind_eq_ok hs
        obtain rfl := Except.ok.inj hs
        exact ⟨(ClientMgr.sameCounts_onMailboxRead hread).workerNum, List.Subset.refl _⟩
  | workerCall os i a mem p =>
      rw [step] at hs
      split at hs
      · obtain rfl := Except.ok.inj hs
        exact ⟨rfl, List.Subset.refl _⟩
      · obtain ⟨⟨w, slot⟩, -, hs⟩ := bind_eq_ok hs
        obtain rfl := Except.ok.inj hs
        exact ⟨rfl, List.Subset.refl _⟩
  | poll os i fd res errno wres =>
      obtain ⟨w, -, hs⟩ := bind_eq_ok hs
      obtain rfl := Except.ok.inj hs
      exact ⟨rfl, List.Subset.refl _⟩
  | endTurn i =>
      obtain ⟨w, -, hs⟩ := bind_eq_ok hs
      obtain rfl := Except.ok.inj hs
      exact ⟨rfl, List.Subset.refl _⟩

end Steps

/-- **What the clients of a worker have got**: the pieces read, each back to where it came from, a
connection that was given to this worker. -/
structure Private (s : System) (log : ℕ → List (ℤ × List UInt8)) (i : ℕ) : Prop where
  echoed : (s.worker i).echoed = log i
  clear : (s.worker i).Clear
  held : ∀ x ∈ log i, ∃ hid, Held s.dispatched i x.1 hid

lemma Hears.isPrivate {s₀ s : System} {log : ℕ → List (ℤ × List UInt8)} (hstart : s₀.Started)
    (h : s₀.Hears s log) {i : ℕ} (hi : i < s.main.workerNum) : s.Private log i := by
  induction h with
  | refl =>
      obtain ⟨os, a, junk, junkStack, timetick, maxConnect, rsize, wsize, sv, t, -, -, hworker⟩ :=
        hstart.worker i hi
      obtain ⟨hecho, hclear⟩ := ConnectWorker.clear_start hworker
      exact ⟨hecho, hclear, fun x hx => absurd hx List.not_mem_nil⟩
  | @step s s' log e h hwhole hf hmodest hs ih =>
      obtain ⟨hnum, hgrows⟩ := step_grows hs
      have hp := ih (hnum ▸ hi)
      have hpass := step_passes hf hmodest hs i hp.clear
      refine ⟨by rw [hpass.echoed, hp.echoed], hpass.clear, fun x hx => ?_⟩
      rcases List.mem_append.mp hx with hx | hx
      · obtain ⟨hid, hheld⟩ := hp.held x hx
        exact ⟨hid, hheld.mono hgrows⟩
      · obtain ⟨W, B, -, hset⟩ := h.run.settled hstart
        cases e with
        | poll os j fd res errno wres =>
            rw [heard] at hx
            split_ifs at hx with hij
            · subst hij
              obtain ⟨k, hused, hfd⟩ := ConnectWorker.mem_heard hx
              rw [hfd]
              exact ⟨_, ((hset.slot i (hnum ▸ hi) k).resolve_left hused).mono hgrows⟩
            · exact absurd hx List.not_mem_nil
        | _ => exact absurd hx List.not_mem_nil

end System

/-- **Clients are private.**  In every run of the gate, through any interleaving of its threads,
with connections that come and go, slots that are handed out again and messages that come twice:
what a worker has given to `::write` on client sockets is, piece by piece and in the same order,
what it has read from them, each piece on the descriptor it was read from, which is the one of a
connection given to this worker.  Between two events no slot holds a byte of anybody; and the next
read event of a live connection returns. -/
theorem clients_private {s₀ s : System} {log : ℕ → List (ℤ × List UInt8)} (hstart : s₀.Started)
    (h : s₀.Hears s log) {i : ℕ} (hi : i < s.main.workerNum) :
    (s.worker i).echoed = log i ∧
    (∀ x ∈ log i, ∃ hid, Held s.dispatched i x.1 hid) ∧
    (∀ k, held ((s.worker i).container.connects k) = []) ∧
    ∀ os fd res errno wres k, os.Total → (s.worker i).target fd = some k →
      ((s.worker i).container.connects k).status = connActive → res.bytes.length ≤ 2048 →
      res ≠ .fail → ∃ s', s.step (.poll os i fd res errno wres) = .ok s' := by
  have hp := h.isPrivate hstart hi
  refine ⟨hp.echoed, hp.held, fun k => (hp.clear k).held_eq, ?_⟩
  intro os fd res errno wres k hos htarget hactive hlen hres
  obtain ⟨w, hpoll, -⟩ :=
    ConnectWorker.poll_spares hp.clear hos htarget hactive hlen hres errno wres
  exact ⟨s.workerRan i w wres, by rw [System.step, hpoll]; rfl⟩

/-- A client on the descriptor 2 is accepted, and sends three bytes. -/
theorem clients_private_one : ∃ s₀ s log, System.Started s₀ ∧ System.Hears s₀ s log ∧
    log 0 = [(2, [7, 8, 9])] ∧ (s.worker 0).echoed = [(2, [7, 8, 9])] := by
  obtain ⟨hstart, -⟩ := started_someGate (show someGateWorker = .ok _ from rfl)
  have h₀ := hstart.hears
  have h₁ := h₀.step (e := .accept zeroLibc 2 0x7F000001 80 (.accept 24)) (by decide)
    ⟨zeroLibc_total, by decide, by decide⟩ trivial rfl
  have h₂ := h₁.step (e := .evRead zeroLibc 0 1 (some 24)) (by decide)
    ⟨zeroLibc_total, by decide, by decide⟩ trivial rfl
  have h₃ := h₂.step (e := .workerCall zeroLibc 0 0 (byteAt (gateFrame ptCgateNewconn
    (ClientMgr.newconn 2 2 0x7F000001 80)).2) 0) (by decide) ⟨by decide, by decide⟩ trivial rfl
  obtain ⟨-, -, -, hnext⟩ := clients_private (i := 0) hstart h₃ (by decide)
  obtain ⟨s, hs⟩ := hnext zeroLibc 2 (.data [7, 8, 9]) false .again 0 zeroLibc_total
    (by decide +kernel) (by decide +kernel) (by decide) (by simp)
  have h₄ := h₃.step (e := .poll zeroLibc 0 2 (.data [7, 8, 9]) false .again) (by decide)
    ⟨zeroLibc_total, by decide, by decide⟩ (show [7, 8, 9].length ≤ 2048 by decide) hs
  obtain ⟨hnum, -⟩ := System.step_grows hs
  obtain ⟨hecho, -⟩ := clients_private (i := 0) hstart h₄ (by rw [hnum]; decide)
  exact ⟨_, s, _, hstart, h₄, by decide +kernel, hecho.trans (by decide +kernel)⟩

end Gate

end Axon
