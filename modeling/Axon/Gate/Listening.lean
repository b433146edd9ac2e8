import Axon.Gate.ClientIds
import Axon.Gate.Isolation

/-!
# The client port

`Listener` of `connect.cc`, and `listen()` and `on_listen_read` of `client_mgr.cc`: the kernel holds
the clients that have connected, and the main thread takes up to 100 of them per event and gives
each to a worker.

The accepts of one call of `on_listen_read` are events of their own, so that the workers may run
between any two of them; the main thread does nothing else until the call returns.

* **`Listener.init`**, **`Listener.listen`**, **`ClientMgr.listen`** : the port is opened.
* **`Door`** : the gate with its port and the clients the kernel holds.
* **`Door.step`** : one event; **`Door.Run`** : any interleaving.
* **`Door.Kept`** : what holds in every state reached.
* **`clients_in_order`** : clients are taken in the order they came in, none twice and none before
  all workers are up.
* **`clients_drained`** : how many events it takes.
-/

namespace Axon

open Library

namespace Gate

open Codegen

/-! ## The listener -/

/-- `Listener`; `mgr` tells whether its handler has been set. -/
structure Listener where
  backlog : ℤ
  listening : Bool
  fd : ℤ
  port : ℕ
  mgr : Bool
deriving DecidableEq, Repr

namespace Listener

/-- `Listener::Listener`. -/
def new : Listener := ⟨0, false, -1, 0, false⟩

/-- `Listener::init`; `sock` is what `::socket` returns, and `reuse` tells whether `setsockopt`
succeeds. -/
def init (l : Listener) (port : ℕ) (backlog sock : ℤ) (reuse : Bool) :
    Except Fault (Listener × ℤ) := do
  rtAssert "port > 0 && backlog > 0" (0 < port ∧ 0 < backlog)
  if sock < 0 then pure (l, axRetError)
  else if reuse = false then pure (l, axRetError)
  else pure ({ l with fd := sock, mgr := true, port := port, backlog := backlog }, axRetOk)

/-- `Listener::listen`; `bound` tells whether `::bind` succeeds, `self` is the address of the
listener, and `a` that of the entry the poller makes, if it makes one. -/
def listen (l : Listener) (p : FdPollerBase) (a self : ℕ) (bound : Bool) :
    Except Fault (Listener × FdPollerBase × ℤ) :=
  if l.port = 0 ∨ l.fd < 0 ∨ l.backlog < 1 then .ok (l, p, axRetError)
  else if l.mgr = false then .ok (l, p, axRetError)
  else if bound = false then .ok (l, p, axRetError)
  else do
    let (p, ret) ← p.addFd a l.fd (some self)
    pure ({ l with listening := true }, p, ret)

/-- `listen` leaves the handler alone, and does not stop a listener that is listening. -/
lemma listen_eq_ok {l l' : Listener} {p p' : FdPollerBase} {a self : ℕ} {bound : Bool} {ret : ℤ}
    (h : l.listen p a self bound = .ok (l', p', ret)) :
    l' = l ∨ (l' = { l with listening := true } ∧ l.mgr = true) := by
  rw [listen] at h
  split_ifs at h with hset hmgr hbound
  · exact Or.inl (Prod.mk.inj (Except.ok.inj h)).1.symm
  · exact Or.inl (Prod.mk.inj (Except.ok.inj h)).1.symm
  · exact Or.inl (Prod.mk.inj (Except.ok.inj h)).1.symm
  · obtain ⟨⟨p₁, ret₁⟩, -, h⟩ := bind_eq_ok h
    exact Or.inr ⟨(Prod.mk.inj (Except.ok.inj h)).1.symm, by simpa using hmgr⟩

end Listener

/-- `ClientMgr::listen`. -/
def ClientMgr.listen (m : ClientMgr) (l : Listener) (p : FdPollerBase) (a self : ℕ)
    (bound : Bool) : Except Fault (Listener × FdPollerBase × ℤ) :=
  if m.inited = false then .ok (l, p, axRetError)
  else do
    let (l, p, ret) ← l.listen p a self bound
    pure (l, p, if ret = axRetError then axRetError else axRetOk)

/-! ## The clients -/

/-- A client the kernel has connected: the descriptor `::accept` gives it, and `sin_addr.s_addr` and
`sin_port` of its address, as they are in memory. -/
structure Client where
  fd : ℤ
  sAddr : ℕ
  sinPort : ℕ
deriving DecidableEq, Repr

/-- `htonl` of a machine that has the lower bytes first. -/
def htonl (x : ℕ) : ℕ :=
  x % 2 ^ 8 * 2 ^ 24 + x / 2 ^ 8 % 2 ^ 8 * 2 ^ 16 + x / 2 ^ 16 % 2 ^ 8 * 2 ^ 8 + x / 2 ^ 24 % 2 ^ 8

/-- `ntohs` of such a machine. -/
def ntohs (x : ℕ) : ℕ := x % 2 ^ 8 * 2 ^ 8 + x / 2 ^ 8 % 2 ^ 8

/-- `::accept` on the clients the kernel holds.  It fails when there are none, and may fail
otherwise. -/
def acceptFrom (fails : Bool) : List Client → Option (Client × List Client)
  | [] => none
  | c :: queue => if fails then none else some (c, queue)

/-- The bound of the loop of `on_listen_read`. -/
def acceptMax : ℕ := 100

/-- The gate and its port. -/
structure Door where
  system : System
  listener : Listener
  /-- The clients the kernel holds. -/
  queue : List Client
  /-- The clients that have connected so far. -/
  arrived : List Client
  /-- The clients given to `on_accept_new_connect` so far. -/
  handed : List Client
  /-- `accept_once`, while the main thread is in `on_listen_read`. -/
  accepting : Option ℕ

namespace Door

/-- What can happen. -/
inductive Event where
  /-- A client connects. -/
  | arrive (c : Client)
  /-- The poller finds the port readable: `Listener::on_ev_read`. -/
  | readable
  /-- The next round of the loop of `on_listen_read`. -/
  | accept (os : Libc) (fails : Bool) (res : WriteResult)
  /-- Anything else, with what `listen()` uses, should it be called. -/
  | other (e : System.Event) (p : FdPollerBase) (a self : ℕ) (bound : Bool)

/-- An event of a worker. -/
def ByWorker : System.Event → Prop
  | .accept .. => False
  | .up .. => True
  | .evWrite _ side _ => side = ConnectWorker.side
  | .evRead _ _ side _ => side = ConnectWorker.side
  | .mainCall .. => False
  | .workerCall .. => True
  | .poll .. => True
  | .endTurn _ => True

/-- An event that is not an accept. -/
def NoAccept : System.Event → Prop
  | .accept .. => False
  | _ => True

/-- One event. -/
def step (d : Door) : Event → Except Fault Door
  | .arrive c => .ok { d with queue := d.queue ++ [c], arrived := d.arrived ++ [c] }
  | .readable =>
      if d.listener.mgr = false ∨ d.listener.listening = false then .ok d
      else .ok { d with accepting := some 0 }
  | .accept os fails res =>
      match d.accepting with
      | none => .ok d
      | some n =>
          if n < acceptMax then
            match acceptFrom fails d.queue with
            | none => .ok { d with accepting := none }
            | some (c, queue) => do
                let system ← d.system.step
                  (.accept os c.fd (htonl c.sAddr) (ntohs c.sinPort) res)
                pure { d with system, queue, handed := d.handed ++ [c], accepting := some (n + 1) }
          else .ok { d with accepting := none }
  | .other e p a self bound => do
      let system ← d.system.step e
      -- the main thread has called `listen()`
      if d.system.main.listens < system.main.listens then do
        let (listener, _, _) ← system.main.listen d.listener p a self bound
        pure { d with system, listener }
      else pure { d with system }

/-- What may happen: clients connect to a port that is open, and the main thread does one thing at
a time. -/
def Fair (d : Door) : Event → Prop
  | .arrive c => d.listener.listening = true ∧ FieldType.int32.InRange c.fd
  | .readable => d.accepting = none
  | .accept os _ _ => os.Total ∧ d.system.Room
  | .other e _ _ _ _ => d.system.Fair e ∧ NoAccept e ∧ (d.accepting ≠ none → ByWorker e)

/-- **The gate begins**: its threads have been started, and the listener initialised, if it could
be. -/
structure Begun (d : Door) : Prop where
  started : d.system.Started
  listener : ∃ port backlog sock reuse ret,
    Listener.new.init port backlog sock reuse = .ok (d.listener, ret)
  queue : d.queue = []
  arrived : d.arrived = []
  handed : d.handed = []
  accepting : d.accepting = none

/-- The states reached from `d₀` in any order of events, as long as the sockets of the mailboxes
take whole frames. -/
inductive Run (d₀ : Door) : Door → Prop
  | refl : Run d₀ d₀
  | step {d d' : Door} {e : Event} (h : Run d₀ d) (hwhole : d.system.Whole) (hf : d.Fair e)
      (hs : d.step e = .ok d') : Run d₀ d'

end Door

/-! ## One event of the gate -/

namespace System

variable {s s' : System}

/-- What every event but an accept leaves alone. -/
structure SameCounter (s s' : System) : Prop where
  hid : s'.main.hid = s.main.hid
  dispatched : s'.dispatched = s.dispatched
  listens : s.main.listens ≤ s'.main.listens

/-- A message from a worker may call `listen()`, and does not undo it. -/
lemma onMailboxRead_listens {m m' : ClientMgr} {os : Libc} {mem : ℕ → UInt8} {header : MsgHeader}
    {p : ℕ} {res : WriteResult} (h : m.onMailboxRead os mem header p res = .ok m') :
    m.listens ≤ m'.listens := by
  rcases ClientMgr.onMailboxRead_cases h with rfl | ⟨idx, t, rfl⟩ | ⟨i, -, rfl⟩
  · exact Nat.le_refl _
  · exact Nat.le_refl _
  · rw [ClientMgr.reported]
    dsimp only
    split_ifs
    · exact Nat.le_succ _
    · exact Nat.le_refl _

lemma step_noAccept {e : Event} (hs : s.step e = .ok s') (hno : Door.NoAccept e) :
    SameCounter s s' := by
  cases e with
  | accept os sockfd ip port res => exact hno.elim
  | up os i res =>
      obtain ⟨w, -, hs⟩ := bind_eq_ok hs
      obtain rfl := Except.ok.inj hs
      exact ⟨rfl, rfl, Nat.le_refl _⟩
  | evWrite i side res =>
      obtain rfl := Except.ok.inj hs
      exact ⟨rfl, rfl, Nat.le_refl _⟩
  | evRead os i side n =>
      obtain ⟨t, -, hs⟩ := bind_eq_ok hs
      obtain rfl := Except.ok.inj hs
      exact ⟨rfl, rfl, Nat.le_refl _⟩
  | mainCall os i mem p res =>
      rw [step] at hs
      cases hnext : s.next i ClientMgr.side with
      | none =>
          rw [hnext] at hs
          obtain rfl := Except.ok.inj hs
          exact ⟨rfl, rfl, Nat.le_refl _⟩
      | some f =>
          rw [hnext] at hs
          obtain ⟨m, hread, hs⟩ := bind_eq_ok hs
          obtain rfl := Except.ok.inj hs
          exact ⟨(ClientMgr.sameCounts_onMailboxRead hread).hid, rfl, onMailboxRead_listens hread⟩
  | workerCall os i a mem p =>
      rw [step] at hs
      cases hnext : s.next i ConnectWorker.side with
      | none =>
          rw [hnext] at hs
          obtain rfl := Except.ok.inj hs
          exact ⟨rfl, rfl, Nat.le_refl _⟩
      | some f =>
          rw [hnext] at hs
          obtain ⟨w, -, hs⟩ := bind_eq_ok hs
          obtain rfl := Except.ok.inj hs
          exact ⟨rfl, rfl, Nat.le_refl _⟩
  | poll os i fd res errno wres =>
      obtain ⟨w, -, hs⟩ := bind_eq_ok hs
      obtain rfl := Except.ok.inj hs
      exact ⟨rfl, rfl, Nat.le_refl _⟩
  | endTurn i =>
      obtain ⟨w, -, hs⟩ := bind_eq_ok hs
      obtain rfl := Except.ok.inj hs
      exact ⟨rfl, rfl, Nat.le_refl _⟩

/-- An accept gives out the next id. -/
lemma step_accept {os : Libc} {sockfd : ℤ} {ip port : ℕ} {res : WriteResult}
    (hs : s.step (.accept os sockfd ip port res) = .ok s') :
    s'.dispatched = ⟨s.main.selectWorker, sockfd,
        ClientMgr.makeHid s.main.selectWorker s.main.nextHid⟩ :: s.dispatched ∧
      s'.main.hid = s.main.nextHid ∧ s'.main.listens = s.main.listens := by
  obtain ⟨⟨m, hid⟩, haccept, hs⟩ := bind_eq_ok hs
  obtain rfl := Except.ok.inj hs
  obtain ⟨rfl, t, rfl⟩ := ClientMgr.onAccept_eq_ok haccept
  exact ⟨rfl, rfl, rfl⟩

end System

/-! ## The invariant -/

namespace Door

/-- **What holds in every state reached**: clients are taken in the order they came in, each is
given the next id, and none has come in before the port was open. -/
structure Kept (d₀ d : Door) : Prop where
  run : System.Run d₀.system d.system
  order : d.handed ++ d.queue = d.arrived
  fds : ∀ c ∈ d.queue, FieldType.int32.InRange c.fd
  length : d.system.dispatched.length = d.handed.length
  given : ∀ k c, d.handed[k]? = some c → ∃ x, d.system.dispatched.reverse[k]? = some x ∧
    x.fd = c.fd ∧
    x.hid = ClientMgr.makeHid x.worker ((d₀.system.main.hid + 1 + k) % 2 ^ 26)
  counter : d.system.main.hid % 2 ^ 26 = (d₀.system.main.hid + d.handed.length) % 2 ^ 26
  listening : d.listener.listening = true → d.listener.mgr = true ∧ 0 < d.system.main.listens
  opened : d.arrived ≠ [] → d.listener.listening = true

section Steps

variable {d₀ d d' : Door}

/-- The gate begins with a port that is closed. -/
lemma Begun.kept (h : d₀.Begun) : Kept d₀ d₀ := by
  have hclosed : d₀.listener.listening = false := by
    obtain ⟨port, backlog, sock, reuse, ret, hinit⟩ := h.listener
    obtain ⟨-, -, hinit⟩ := bind_eq_ok hinit
    split_ifs at hinit
    · rw [← (Prod.mk.inj (Except.ok.inj hinit)).1]
      rfl
    · rw [← (Prod.mk.inj (Except.ok.inj hinit)).1]
      rfl
    · rw [← (Prod.mk.inj (Except.ok.inj hinit)).1]
      rfl
  refine ⟨.refl, ?_, ?_, ?_, ?_, ?_, ?_, ?_⟩
  · rw [h.handed, h.queue, h.arrived]
    rfl
  · rw [h.queue]
    exact fun c hc => absurd hc List.not_mem_nil
  · rw [h.handed, h.started.dispatched]
    rfl
  · rw [h.handed]
    exact fun k c hc => by simp at hc
  · rw [h.handed]
    rfl
  · rw [hclosed]
    exact fun hopen => by simp at hopen
  · exact fun hne => absurd h.arrived hne

/-- Whether the main thread is in `on_listen_read` does not matter. -/
lemma Kept.withAccepting (h : Kept d₀ d) (o : Option ℕ) :
    Kept d₀ { d with accepting := o } :=
  ⟨h.run, h.order, h.fds, h.length, h.given, h.counter, h.listening, h.opened⟩

lemma acceptFrom_eq_some {fails : Bool} {queue rest : List Client} {c : Client}
    (h : acceptFrom fails queue = some (c, rest)) : queue = c :: rest := by
  cases queue with
  | nil => cases h
  | cons c' queue =>
      rw [acceptFrom] at h
      split_ifs at h
      obtain ⟨rfl, rfl⟩ := Prod.mk.inj (Option.some.inj h)
      rfl

/-- **One round of the loop** of `on_listen_read`: nothing, outside of a call; the end of the call;
or a client. -/
lemma step_accept_cases {os : Libc} {fails : Bool} {res : WriteResult}
    (hs : d.step (.accept os fails res) = .ok d') :
    (d.accepting = none ∧ d' = d) ∨
    (∃ n, d.accepting = some n ∧ d' = { d with accepting := none } ∧
      (n < acceptMax → acceptFrom fails d.queue = none)) ∨
    ∃ n c queue system, d.accepting = some n ∧ n < acceptMax ∧ d.queue = c :: queue ∧
      d.system.step (.accept os c.fd (htonl c.sAddr) (ntohs c.sinPort) res) = .ok system ∧
      d' = { d with system, queue, handed := d.handed ++ [c], accepting := some (n + 1) } := by
  rw [step] at hs
  cases haccepting : d.accepting with
  | none =>
      rw [haccepting] at hs
      exact Or.inl ⟨rfl, (Except.ok.inj hs).symm⟩
  | some n =>
      rw [haccepting] at hs
      dsimp only at hs
      refine Or.inr ?_
      split_ifs at hs with hn
      · cases hfrom : acceptFrom fails d.queue with
        | none =>
            rw [hfrom] at hs
            exact Or.inl ⟨n, rfl, (Except.ok.inj hs).symm, fun _ => rfl⟩
        | some q =>
            obtain ⟨c, queue⟩ := q
            rw [hfrom] at hs
            obtain ⟨system, hstep, hs⟩ := bind_eq_ok hs
            exact Or.inr ⟨n, c, queue, system, rfl, hn, acceptFrom_eq_some hfrom, hstep,
              (Except.ok.inj hs).symm⟩
      · exact Or.inl ⟨n, rfl, (Except.ok.inj hs).symm, fun hlt => absurd hlt hn⟩

/-- A client is taken. -/
lemma Kept.accept (h : Kept d₀ d) (hwhole : d.system.Whole) {os : Libc} {res : WriteResult}
    {c : Client} {queue : List Client} {system : System} (ht : os.Total) (hroom : d.system.Room)
    (hqueue : d.queue = c :: queue)
    (hs : d.system.step (.accept os c.fd (htonl c.sAddr) (ntohs c.sinPort) res) = .ok system)
    (o : Option ℕ) :
    Kept d₀ { d with system, queue, handed := d.handed ++ [c], accepting := o } := by
  obtain ⟨hdispatched, hhid, hlistens⟩ := System.step_accept hs
  have hnext : d.system.main.nextHid = (d₀.system.main.hid + 1 + d.handed.length) % 2 ^ 26 := by
    have hcounter := h.counter
    rw [ClientMgr.nextHid_eq]
    omega
  have hfd : FieldType.int32.InRange c.fd := h.fds c (by rw [hqueue]; exact List.mem_cons_self)
  refine ⟨h.run.next hs hwhole ⟨ht, hfd, hroom⟩, ?_, fun c' hc' => ?_, ?_, fun k c' hk => ?_, ?_,
    ?_, h.opened⟩
  · rw [← h.order, hqueue, List.append_assoc]
    rfl
  · exact h.fds c' (by rw [hqueue]; exact List.mem_cons_of_mem c hc')
  · rw [hdispatched, List.length_cons, h.length, List.length_append]
    rfl
  · have hlen : d.system.dispatched.reverse.length = d.handed.length := by
      rw [List.length_reverse, h.length]
    dsimp only at hk ⊢
    rw [hdispatched, List.reverse_cons]
    rcases Nat.lt_or_ge k d.handed.length with hlt | hge
    · rw [List.getElem?_append_left hlt] at hk
      rw [List.getElem?_append_left (hlen ▸ hlt)]
      exact h.given k c' hk
    · -- the last one is the one just taken
      have hkeq : k = d.handed.length := by
        have hk' := (List.getElem?_eq_some_iff.mp hk).1
        rw [List.length_append, List.length_singleton] at hk'
        omega
      subst hkeq
      rw [List.getElem?_concat_length] at hk
      obtain rfl := Option.some.inj hk
      refine ⟨_, by rw [← hlen, List.getElem?_concat_length], rfl, ?_⟩
      rw [hnext]
  · show system.main.hid % 2 ^ 26 = _
    rw [hhid, hnext, List.length_append, List.length_singleton]
    omega
  · rw [hlistens]
    exact h.listening

/-- `listen()` opens the port only. -/
lemma clientMgr_listen_eq_ok {m : ClientMgr} {l l' : Listener} {p p' : FdPollerBase} {a self : ℕ}
    {bound : Bool} {ret : ℤ} (h : m.listen l p a self bound = .ok (l', p', ret)) :
    l' = l ∨ (l' = { l with listening := true } ∧ l.mgr = true) := by
  rw [ClientMgr.listen] at h
  split_ifs at h
  · exact Or.inl (Prod.mk.inj (Except.ok.inj h)).1.symm
  · obtain ⟨⟨l₁, p₁, ret₁⟩, hlisten, h⟩ := bind_eq_ok h
    obtain ⟨rfl, -⟩ := Prod.mk.inj (Except.ok.inj h)
    exact Listener.listen_eq_ok hlisten

/-- Another event of the gate. -/
lemma Kept.other (h : Kept d₀ d) (hwhole : d.system.Whole) {e : System.Event} {p : FdPollerBase}
    {a self : ℕ} {bound : Bool} (hf : d.system.Fair e) (hno : NoAccept e)
    (hs : d.step (.other e p a self bound) = .ok d') :
    Kept d₀ d' ∧ d'.accepting = d.accepting ∧ d'.handed = d.handed ∧ d'.arrived = d.arrived ∧
      (d.listener.listening = true → d'.listener.listening = true) := by
  obtain ⟨system, hstep, hs⟩ := bind_eq_ok hs
  have hsame := System.step_noAccept hstep hno
  have hrun := h.run.next hstep hwhole hf
  have hkept : ∀ listener : Listener,
      (listener.listening = true → listener.mgr = true ∧ 0 < system.main.listens) →
      (d.listener.listening = true → listener.listening = true) →
      Kept d₀ { d with system, listener } := by
    intro listener hlistening hstays
    refine ⟨hrun, h.order, h.fds, ?_, ?_, ?_, hlistening, fun hne => hstays (h.opened hne)⟩
    · rw [hsame.dispatched]
      exact h.length
    · rw [hsame.dispatched]
      exact h.given
    · rw [hsame.hid]
      exact h.counter
  have hsteady : d.listener.listening = true → d.listener.mgr = true ∧ 0 < system.main.listens :=
    fun hl => ⟨(h.listening hl).1, Nat.lt_of_lt_of_le (h.listening hl).2 hsame.listens⟩
  split_ifs at hs with hcalled
  · obtain ⟨⟨listener, p', ret⟩, hlisten, hs⟩ := bind_eq_ok hs
    obtain rfl := Except.ok.inj hs
    rcases clientMgr_listen_eq_ok hlisten with rfl | ⟨rfl, hmgr⟩
    · exact ⟨hkept _ hsteady id, rfl, rfl, rfl, id⟩
    · exact ⟨hkept _ (fun _ => ⟨hmgr, Nat.lt_of_le_of_lt (Nat.zero_le _) hcalled⟩) fun _ => rfl,
        rfl, rfl, rfl, fun _ => rfl⟩
  · obtain rfl := Except.ok.inj hs
    exact ⟨hkept d.listener hsteady id, rfl, rfl, rfl, id⟩

/-- **Every event** keeps the invariant. -/
lemma Kept.step (h : Kept d₀ d) (hwhole : d.system.Whole) {e : Event} (hf : d.Fair e)
    (hs : d.step e = .ok d') : Kept d₀ d' := by
  cases e with
  | arrive c =>
      obtain rfl := Except.ok.inj hs
      refine ⟨h.run, ?_, fun c' hc' => ?_, h.length, h.given, h.counter, h.listening, fun _ => hf.1⟩
      · rw [← h.order, List.append_assoc]
      · rcases List.mem_append.mp hc' with hc' | hc'
        · exact h.fds c' hc'
        · rw [List.mem_singleton.mp hc']
          exact hf.2
  | readable =>
      rw [Door.step] at hs
      split_ifs at hs
      · obtain rfl := Except.ok.inj hs
        exact h
      · obtain rfl := Except.ok.inj hs
        exact h.withAccepting _
  | accept os fails res =>
      rcases step_accept_cases hs with
        ⟨-, rfl⟩ | ⟨n, -, rfl, -⟩ | ⟨n, c, queue, system, -, -, hqueue, hstep, rfl⟩
      · exact h
      · exact h.withAccepting _
      · exact h.accept hwhole hf.1 hf.2 hqueue hstep _
  | other e p a self bound => exact (h.other hwhole hf.1 hf.2.1 hs).1

/-- **Every state of every run.** -/
lemma Run.kept (hbegun : d₀.Begun) (h : Run d₀ d) : Kept d₀ d := by
  induction h with
  | refl => exact hbegun.kept
  | step _ hwhole hf hs ih => exact ih.step hwhole hf hs

/-- A round of the loop returns. -/
lemma Kept.accept_returns (h : Kept d₀ d) (hstart : d₀.system.Started) {os : Libc} {fails : Bool}
    {res : WriteResult} (hf : d.Fair (.accept os fails res)) :
    ∃ d', d.step (.accept os fails res) = .ok d' := by
  obtain ⟨W, B, hl, hset⟩ := h.run.settled hstart
  rw [Door.step]
  cases d.accepting with
  | none => exact ⟨_, rfl⟩
  | some n =>
      dsimp only
      split_ifs
      · cases hfrom : acceptFrom fails d.queue with
        | none => exact ⟨_, rfl⟩
        | some q =>
            obtain ⟨c, queue⟩ := q
            have hfd : FieldType.int32.InRange c.fd :=
              h.fds c (by rw [acceptFrom_eq_some hfrom]; exact List.mem_cons_self)
            obtain ⟨system, W', hstep, -⟩ := System.accept_returns hl hset hf.1 hfd hf.2
              (htonl c.sAddr) (ntohs c.sinPort) res
            dsimp only
            rw [hstep]
            exact ⟨_, rfl⟩
      · exact ⟨_, rfl⟩

end Steps

end Door

/-! ## How far the clients have come -/

namespace Door

/-- How often the poller has found the port readable. -/
def Event.reads : Event → ℕ
  | .readable => 1
  | _ => 0

/-- `::accept` does not fail when there is a client. -/
def Event.Patient : Event → Prop
  | .accept _ fails _ => fails = false
  | _ => True

/-- **From `d` on**, with `r` events of the port and no `::accept` that fails when there is a
client. -/
inductive Serves (d : Door) : ℕ → Door → Prop
  | refl : Serves d 0 d
  | step {r : ℕ} {d' d'' : Door} {e : Event} (h : Serves d r d') (hwhole : d'.system.Whole)
      (hf : d'.Fair e) (hpatient : e.Patient) (hs : d'.step e = .ok d'') :
      Serves d (r + e.reads) d''

/-- The rounds left of a call of `on_listen_read`. -/
def left (d : Door) : ℕ :=
  match d.accepting with
  | none => 0
  | some n => acceptMax - n

/-- **How far the clients have come** after `r` events: at most 100 each were taken, and not fewer,
unless all that were there have been. -/
structure Served (d₀ d : Door) (r : ℕ) (d' : Door) : Prop where
  kept : Kept d₀ d'
  arrived : d.arrived <+: d'.arrived
  listening : d'.listener.listening = true
  most : d'.handed.length + d'.left ≤ d.handed.length + acceptMax * r
  least : d.arrived.length ≤ d'.handed.length ∨
    d.handed.length + acceptMax * r ≤ d'.handed.length + d'.left

section Served

variable {d₀ d d' d'' : Door} {r : ℕ}

lemma Kept.served (h : Kept d₀ d) (hlistening : d.listener.listening = true)
    (haccepting : d.accepting = none) : Served d₀ d 0 d := by
  have hleft : d.left = 0 := by rw [left, haccepting]
  refine ⟨h, List.prefix_rfl, hlistening, ?_, Or.inr ?_⟩
  · omega
  · omega

/-- All clients that were there have been taken, when the kernel holds none. -/
lemma Served.of_empty (h : Served d₀ d r d') (hqueue : d'.queue = []) :
    d.arrived.length ≤ d'.handed.length := by
  have horder := h.kept.order
  rw [hqueue, List.append_nil] at horder
  rw [horder]
  exact h.arrived.length_le

/-- **One event.** -/
lemma Served.step (h : Served d₀ d r d') (hwhole : d'.system.Whole) {e : Event} (hf : d'.Fair e)
    (hpatient : e.Patient) (hs : d'.step e = .ok d'') : Served d₀ d (r + e.reads) d'' := by
  have hkept := h.kept.step hwhole hf hs
  have hmost := h.most
  have hleast := h.least
  cases e with
  | arrive c =>
      obtain rfl := Except.ok.inj hs
      exact ⟨hkept, h.arrived.trans (List.prefix_append _ _), h.listening, hmost, hleast⟩
  | readable =>
      have hmgr := (h.kept.listening h.listening).1
      have hleft : d'.left = 0 := by rw [left, show d'.accepting = none from hf]
      rw [Door.step, if_neg (by simp [hmgr, h.listening])] at hs
      obtain rfl := Except.ok.inj hs
      have hfull : ({ d' with accepting := some 0 } : Door).left = acceptMax := rfl
      refine ⟨hkept, h.arrived, h.listening, ?_, hleast.imp_right fun hle => ?_⟩
      · rw [hfull, Event.reads, Nat.mul_succ]
        dsimp only
        omega
      · rw [hfull, Event.reads, Nat.mul_succ]
        dsimp only
        omega
  | accept os fails res =>
      show Served d₀ d r d''
      rcases step_accept_cases hs with
        ⟨-, rfl⟩ | ⟨n, hn, rfl, hend⟩ | ⟨n, c, queue, system, hn, hlt, hqueue, hstep, rfl⟩
      · exact ⟨hkept, h.arrived, h.listening, hmost, hleast⟩
      · have hleft : d'.left = acceptMax - n := by rw [left, hn]
        refine ⟨hkept, h.arrived, h.listening, ?_, ?_⟩
        · show d'.handed.length + 0 ≤ _
          omega
        · rcases Nat.lt_or_ge n acceptMax with hlt | hge
          · -- the call ends early, so there was no client left
            refine Or.inl (h.of_empty ?_)
            have hnone := hend hlt
            rw [show fails = false from hpatient] at hnone
            cases hqueue : d'.queue with
            | nil => rfl
            | cons c queue =>
                rw [hqueue] at hnone
                cases hnone
          · refine hleast.imp_right fun hle => ?_
            show _ ≤ d'.handed.length + 0
            omega
      · have hleft : d'.left = acceptMax - n := by rw [left, hn]
        have hhanded : (d'.handed ++ [c]).length = d'.handed.length + 1 := by simp
        refine ⟨hkept, h.arrived, h.listening, ?_, ?_⟩
        · show (d'.handed ++ [c]).length + (acceptMax - (n + 1)) ≤ _
          omega
        · show d.arrived.length ≤ (d'.handed ++ [c]).length ∨
            _ ≤ (d'.handed ++ [c]).length + (acceptMax - (n + 1))
          omega
  | other e p a self bound =>
      obtain ⟨-, haccepting, hhanded, harrived, hlistening⟩ :=
        h.kept.other hwhole hf.1 hf.2.1 hs
      have hleft : d''.left = d'.left := by rw [left, left, haccepting]
      refine ⟨hkept, harrived ▸ h.arrived, hlistening h.listening, ?_, ?_⟩
      · rw [hhanded, hleft]
        exact hmost
      · rw [hhanded, hleft]
        exact hleast

lemma Serves.served (hd : Served d₀ d 0 d) (h : Serves d r d') : Served d₀ d r d' := by
  induction h with
  | refl => exact hd
  | step _ hwhole hf hpatient hs ih => exact ih.step hwhole hf hpatient hs

end Served

end Door

/-! ## One client -/

/-- A gate with one worker, whose listener has been initialised. -/
def someDoor (w : ConnectWorker) : Door where
  system := someGate w
  listener := ⟨16, false, 3, 8080, true⟩
  queue := []
  arrived := []
  handed := []
  accepting := none

lemma begun_someDoor {w : ConnectWorker} (h : someGateWorker = .ok w) :
    (someDoor w).Begun ∧ Door.Run (someDoor w) (someDoor w) :=
  ⟨⟨(started_someGate h).1, ⟨8080, 16, 3, true, axRetOk, rfl⟩, rfl, rfl, rfl, rfl⟩, .refl⟩

/-- A client of the machine the gate runs on, with port 80. -/
def someClient : Client := ⟨5, 0x0100007F, 0x5000⟩

/-- A run goes on with an event. -/
lemma Door.Run.next {d₀ d d' : Door} {e : Door.Event} (h : Door.Run d₀ d) (hs : d.step e = .ok d')
    (hwhole : d.system.Whole) (hf : d.Fair e) : Door.Run d₀ d' := .step h hwhole hf hs

/-- Or with another event of the gate; `::bind` succeeds, and the poller is a new one. -/
lemma Door.Run.other {d₀ d d' : Door} (h : Door.Run d₀ d) (e : System.Event)
    (hs : d.step (.other e (d₀.system.worker 0).poller 0 9 true) = .ok d')
    (hwhole : d.system.Whole) (hf : d.system.Fair e) (hno : Door.NoAccept e)
    (hidle : d.accepting = none) : Door.Run d₀ d' :=
  h.next hs hwhole ⟨hf, hno, fun hne => absurd hidle hne⟩

lemma Door.Run.serves {d₀ d : Door} (_ : Door.Run d₀ d) : Door.Serves d 0 d := .refl

/-- So does it from a later state on. -/
lemma Door.Serves.next {d d' d'' : Door} {r : ℕ} {e : Door.Event} (h : Door.Serves d r d')
    (hs : d'.step e = .ok d'') (hwhole : d'.system.Whole) (hf : d'.Fair e) (hpatient : e.Patient) :
    Door.Serves d (r + e.reads) d'' := .step h hwhole hf hpatient hs

lemma Door.Serves.run {d₀ d d' : Door} {r : ℕ} (hd : Door.Run d₀ d) (h : Door.Serves d r d') :
    Door.Run d₀ d' := by
  induction h with
  | refl => exact hd
  | step _ hwhole hf _ hs ih => exact ih.next hs hwhole hf

/-- The worker announces itself, the port is opened, and a client connects and is taken. -/
lemma run_someDoor : ∃ d₀ d d', d₀.Begun ∧ Door.Run d₀ d ∧ d.listener.listening = true ∧
    d.accepting = none ∧ d.queue = [someClient] ∧ Door.Serves d 1 d' ∧ d'.accepting = none ∧
    d'.arrived = [someClient] ∧ d'.system.main.workerNum = 1 := by
  obtain ⟨hbegun, hrun⟩ := begun_someDoor (show someGateWorker = .ok _ from rfl)
  have h₁ := hrun.other (.up zeroLibc 0 (.accept 14)) rfl (by decide)
    ⟨zeroLibc_total, by decide, by decide⟩ trivial rfl
  have h₂ := h₁.other (.evRead zeroLibc 0 0 (some 14)) rfl (by decide)
    ⟨zeroLibc_total, by decide, by decide⟩ trivial rfl
  have h₃ := h₂.other (.mainCall zeroLibc 0 (byteAt (gateFrame ptWorkerNotify
    (ConnectWorker.startNotify 0)).2) 0 .again) rfl (by decide)
    ⟨zeroLibc_total, by decide, by decide, by decide⟩ trivial rfl
  have h₄ := h₃.next (e := .arrive someClient) rfl (by decide) ⟨by decide, by decide⟩
  have h₅ := h₄.serves.next (e := .readable) rfl (by decide) rfl trivial
  have h₆ := h₅.next (e := .accept zeroLibc false (.accept 24)) rfl (by decide)
    ⟨zeroLibc_total, by decide⟩ rfl
  have h₇ := h₆.next (e := .accept zeroLibc false .again) rfl (by decide)
    ⟨zeroLibc_total, by decide⟩ rfl
  exact ⟨_, _, _, hbegun, h₄, rfl, rfl, rfl, h₇, rfl, rfl, rfl⟩

/-! ## All runs -/

/-- **Clients are taken in order.**  In every state the gate reaches, through any interleaving of
its threads and the clients that connect: those given to the workers and those the kernel still
holds are the ones that have connected, in this order; each was given once, with its descriptor, to
one of the workers and with the next id; none has connected before every worker had announced
itself; and no round of the loop of `on_listen_read` fails. -/
theorem clients_in_order {d₀ d : Door} (hbegun : d₀.Begun) (h : Door.Run d₀ d) :
    d.handed ++ d.queue = d.arrived ∧
    d.system.dispatched.length = d.handed.length ∧
    (∀ k c, d.handed[k]? = some c → ∃ x, d.system.dispatched.reverse[k]? = some x ∧
      x.fd = c.fd ∧ x.worker < d.system.main.workerNum ∧
      x.hid = ClientMgr.makeHid x.worker ((d₀.system.main.hid + 1 + k) % 2 ^ 26)) ∧
    (d.arrived ≠ [] → ∀ i < d.system.main.workerNum, i ∈ d.system.up) ∧
    ∀ os fails res, d.Fair (.accept os fails res) →
      ∃ d', d.step (.accept os fails res) = .ok d' := by
  have hkept := h.kept hbegun
  obtain ⟨W, B, -, hset⟩ := hkept.run.settled hbegun.started
  refine ⟨hkept.order, hkept.length, fun k c hk => ?_, fun hne i hi => ?_,
    fun os fails res hf => hkept.accept_returns hbegun.started hf⟩
  · obtain ⟨x, hx, hfd, hhid⟩ := hkept.given k c hk
    have hmem : x ∈ d.system.dispatched := List.mem_reverse.mp (List.mem_of_getElem? hx)
    exact ⟨x, hx, hfd, (hset.routed x hmem).lt, hhid⟩
  · have hopen := (hkept.listening (hkept.opened hne)).2
    exact hset.ready.active i hi (hset.ready.listens hopen i hi)

/-- A client that has been taken. -/
theorem clients_in_order_one : ∃ d₀ d, d₀.Begun ∧ Door.Run d₀ d ∧ d.arrived = [someClient] ∧
    d.handed ++ d.queue = [someClient] ∧ 0 ∈ d.system.up := by
  obtain ⟨d₀, d, d', hbegun, hrun, -, -, -, hserves, -, harrived, hnum⟩ := run_someDoor
  have hrun' := hserves.run hrun
  obtain ⟨horder, -, -, hup, -⟩ := clients_in_order hbegun hrun'
  refine ⟨d₀, d', hbegun, hrun', harrived, horder.trans harrived, hup ?_ 0 ?_⟩
  · rw [harrived]
    simp
  · rw [hnum]
    exact Nat.one_pos

/-- **How long clients wait.**  From any state the gate reaches in which the port is open and the
main thread not in `on_listen_read`, whatever its threads and further clients do: `r` events of the
port take at most `100 * r` clients; and when these calls have returned and no `::accept` has failed
for another reason than that there was no client, the first `100 * r` of the clients the kernel held
have been taken. -/
theorem clients_drained {d₀ d d' : Door} {r : ℕ} (hbegun : d₀.Begun) (h : Door.Run d₀ d)
    (hlistening : d.listener.listening = true) (haccepting : d.accepting = none)
    (hserves : Door.Serves d r d') :
    d'.handed.length ≤ d.handed.length + 100 * r ∧
    (d'.accepting = none → d.handed ++ d.queue.take (100 * r) <+: d'.handed) := by
  have hkept := h.kept hbegun
  have hserved := hserves.served (hkept.served hlistening haccepting)
  have hmost := hserved.most
  refine ⟨?_, fun hdone => ?_⟩
  · rw [acceptMax] at hmost
    omega
  · have hleft : d'.left = 0 := by rw [Door.left, hdone]
    have hall : d.handed ++ d.queue.take (100 * r) <+: d'.arrived := by
      refine List.IsPrefix.trans ?_ hserved.arrived
      rw [← hkept.order]
      exact (List.prefix_append_right_inj _).mpr (List.take_prefix _ _)
    have htaken : d'.handed <+: d'.arrived := by
      rw [← hserved.kept.order]
      exact List.prefix_append _ _
    refine List.prefix_of_prefix_length_le hall htaken ?_
    have harrived : d.arrived.length = d.handed.length + d.queue.length := by
      rw [← hkept.order, List.length_append]
    rw [List.length_append, List.length_take]
    rcases hserved.least with hle | hle
    · omega
    · rw [acceptMax] at hle
      omega

/-- A client that is there when the poller finds the port readable. -/
theorem clients_drained_one : ∃ d₀ d d', d₀.Begun ∧ Door.Run d₀ d ∧ d.queue = [someClient] ∧
    Door.Serves d 1 d' ∧ d.handed ++ [someClient] <+: d'.handed := by
  obtain ⟨d₀, d, d', hbegun, hrun, hlistening, hidle, hqueue, hserves, hdone, -, -⟩ := run_someDoor
  have htaken := (clients_drained hbegun hrun hlistening hidle hserves).2 hdone
  rw [hqueue] at htaken
  exact ⟨d₀, d, d', hbegun, hrun, hqueue, hserves, htaken⟩

end Gate

end Axon
