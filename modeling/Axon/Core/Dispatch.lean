import Axon.Core.EventPoller

/-!
# Events reach live reactors

`do_poll` dispatches a batch of events from a table that the callbacks change: a callback may put
any descriptor into `FDS_WAIT_CLOSE`, which drops its reactor, while events for it are still in the
batch, or while its own event has a second half.

* **`EventPoller.Live`** : what the calls keep: an active entry has a reactor, an entry waiting to
  be closed has none, and `NULL` is not in `pending_new_`.
* **`EventPoller.Reached`** : the pollers reached by calls and turns of the loop.
* **`Served`** : every callback of a batch was on an active entry, and none came after the
  `wait_close` of its descriptor.
* **`EpollPoller.Quiet`** : no event that is both readable and writable meets a read callback that
  calls `wait_close` on its descriptor.
* **`dispatch_live_iff`** : `EpollPoller::do_poll` serves a batch if and only if it is quiet, as it
  looks at the status once per event; `KqueuePoller::do_poll` serves every batch.
-/

namespace Axon

open Library

/-- An active entry has a reactor, and an entry waiting to be closed has none. -/
def PollerEntry.Sane (e : PollerEntry) : Prop :=
  (e.status = .active → e.reactor ≠ none) ∧ (e.status = .waitClose → e.reactor = none)

/-- The calls of `close_fd` among these. -/
def closings (cs : List Request) : ℕ :=
  cs.countP fun c =>
    match c with
    | .closeFd _ => true
    | _ => false

namespace EventPoller

variable {R : Type} {p p' : EventPoller R} {fd : ℤ}

/-- **What every call keeps.** -/
structure Live (p : EventPoller R) : Prop where
  entry : ∀ fd, p.base.InRange fd → (p.base.entry fd).Sane
  pending : ∃ l b, HmapT.Stores p.base.pendingNew l b ∧ ∀ c ∈ l, c.data ≠ none
  room : p.base.retiredSz ≤ p.base.maxFds

/-! ## One callback -/

lemma setWatch_status (w : Watch R) (fd' : ℤ) :
    ((p.setWatch fd w).base.entry fd').status = (p.base.entry fd').status := by
  rcases eq_or_ne fd' fd with rfl | hne
  · simp [setWatch, FdPollerBase.setEntry]
  · simp [setWatch, FdPollerBase.setEntry, Function.update_of_ne hne]

lemma setWatch_reactor (w : Watch R) (fd' : ℤ) :
    ((p.setWatch fd w).base.entry fd').reactor = (p.base.entry fd').reactor := by
  rcases eq_or_ne fd' fd with rfl | hne
  · simp [setWatch, FdPollerBase.setEntry]
  · simp [setWatch, FdPollerBase.setEntry, Function.update_of_ne hne]

lemma Live.setWatch (h : p.Live) (w : Watch R) : (p.setWatch fd w).Live where
  entry fd' hrange := by
    rw [PollerEntry.Sane, setWatch_status, setWatch_reactor]
    exact h.entry fd' hrange
  pending := h.pending
  room := h.room

lemma Live.setEntry (h : p.Live) {f : PollerEntry → PollerEntry}
    (hf : (f (p.base.entry fd)).Sane) : (p.setEntry fd f).Live where
  entry fd' hrange := by
    rcases eq_or_ne fd' fd with rfl | hne
    · simpa [EventPoller.setEntry, FdPollerBase.setEntry] using hf
    · have hkeep : (p.setEntry fd f).base.entry fd' = p.base.entry fd' :=
        Function.update_of_ne hne ..
      rw [hkeep]
      exact h.entry fd' hrange
  pending := h.pending
  room := h.room

lemma Live.resetFd (h : p.Live) (fd : ℤ) : Live { p with base := p.base.resetFd fd } := by
  rw [FdPollerBase.resetFd]
  split_ifs
  · exact h.setEntry ⟨fun he => absurd he (by simp), fun he => absurd he (by simp)⟩
  · exact h

/-- **What calls have done**: the statuses of the entries follow from the calls of `wait_close`. -/
structure After (p p' : EventPoller R) (cs : List (Request × ℤ)) : Prop where
  live : p'.Live
  maxFds : p'.base.maxFds = p.base.maxFds
  retired : p'.base.retiredSz = p.base.retiredSz + closings (cs.map Prod.fst)
  waiting : ∀ fd, (p.base.entry fd).status = .waitClose → (p'.base.entry fd).status = .waitClose
  active : ∀ fd, p.base.InRange fd → (p.base.entry fd).status = .active →
    (p'.base.entry fd).status =
      if Request.waitClose fd ∈ cs.map Prod.fst then .waitClose else .active
  closed : ∀ fd, (Request.waitClose fd, axRetOk) ∈ cs → (p'.base.entry fd).status = .waitClose

lemma After.nil (h : p.Live) : After p p [] :=
  ⟨h, rfl, rfl, fun _ h => h, fun _ _ h => h, by simp⟩

lemma After.cons {p₁ : EventPoller R} {c : Request} {r : ℤ} {cs : List (Request × ℤ)}
    (h₁ : After p p₁ [(c, r)]) (h₂ : After p₁ p' cs) : After p p' ((c, r) :: cs) where
  live := h₂.live
  maxFds := h₂.maxFds.trans h₁.maxFds
  retired := by
    rw [h₂.retired, h₁.retired]
    simp only [closings, List.map_cons, List.map_nil, List.countP_cons, List.countP_nil]
    omega
  waiting fd h := h₂.waiting fd (h₁.waiting fd h)
  active fd hrange hactive := by
    have hmid := h₁.active fd hrange hactive
    simp only [List.map_cons, List.map_nil, List.mem_cons, List.not_mem_nil, or_false] at hmid ⊢
    by_cases hc : Request.waitClose fd = c
    · rw [if_pos hc] at hmid
      rw [if_pos (Or.inl hc)]
      exact h₂.waiting fd hmid
    · rw [if_neg hc] at hmid
      have hrange' : p₁.base.InRange fd := by
        rw [FdPollerBase.InRange, h₁.maxFds]
        exact hrange
      rw [h₂.active fd hrange' hmid]
      simp only [hc, false_or]
  closed fd hmem := by
    rcases List.mem_cons.mp hmem with heq | hmem
    · exact h₂.waiting fd (h₁.closed fd (heq ▸ List.mem_cons_self))
    · exact h₂.closed fd hmem

/-- A call other than `wait_close` that keeps the status of every entry in use. -/
lemma After.of_status {c : Request} {r : ℤ} (hlive : p'.Live)
    (hmax : p'.base.maxFds = p.base.maxFds)
    (hret : p'.base.retiredSz = p.base.retiredSz + closings [c])
    (hc : ∀ fd, Request.waitClose fd ≠ c)
    (hstatus : ∀ fd, (p.base.entry fd).status ≠ .empty →
      (p'.base.entry fd).status = (p.base.entry fd).status) : After p p' [(c, r)] where
  live := hlive
  maxFds := hmax
  retired := hret
  waiting fd h := (hstatus fd (h ▸ by decide)).trans h
  active fd _ h := by
    rw [hstatus fd (h ▸ by decide), h, if_neg (by simpa using hc fd)]
  closed fd hmem := absurd (Prod.mk.inj (List.mem_singleton.mp hmem)).1 (hc fd)

variable [Driver R]

lemma Live.addFd (h : p.Live) (malloc : Allocator (HmapEntry ℤ ℕ)) (fd : ℤ) (reactor : ℕ) :
    ∃ p' r, p.request malloc (.addFd fd reactor) = .ok (p', r) ∧
      After p p' [(.addFd fd reactor, r)] := by
  rw [request, EventPoller.addFd]
  by_cases hrange : p.base.InRange fd
  · rw [if_neg (not_not.mpr hrange)]
    by_cases hempty : (p.base.entry fd).status = .empty
    · set q := p.setEntry fd fun _ =>
        { reactor := some reactor, evMask := evNull, status := .active } with hq
      have hrange' : q.base.InRange fd := hrange
      have hlive : q.Live := h.setEntry ⟨fun _ => by simp, fun he => absurd he (by simp)⟩
      rw [if_neg (not_not.mpr hempty)]
      dsimp only
      rw [Driver.addEvent_eq _ hrange', onEntry, if_pos hrange'.lt_maxFds]
      refine ⟨_, _, rfl, .of_status (hlive.setWatch _) rfl rfl (by simp) ?_⟩
      intro fd' hne
      refine (setWatch_status _ fd').trans ?_
      rw [hq, EventPoller.setEntry, FdPollerBase.setEntry_status_of_ne]
      exact fun heq => hne (heq ▸ hempty)
    · obtain ⟨l, b, hstores, hdata⟩ := h.pending
      obtain ⟨m, b', hins, -, hstores'⟩ := hstores.insert (malloc.fresh _) fd (some reactor)
      rw [if_pos hempty, hins]
      refine ⟨_, _, rfl, .of_status ⟨h.entry, ⟨_, b', hstores', ?_⟩, h.room⟩ rfl rfl (by simp)
        fun _ _ => rfl⟩
      intro c hc
      rcases List.mem_cons.mp hc with rfl | hc
      · exact Option.some_ne_none reactor
      · exact hdata c hc
  · rw [if_pos hrange]
    exact ⟨p, _, rfl, .of_status h rfl rfl (by simp) fun _ _ => rfl⟩

lemma Live.setReactor (h : p.Live) (malloc : Allocator (HmapEntry ℤ ℕ)) (fd : ℤ) (reactor : ℕ) :
    ∃ p' r, p.request malloc (.setReactor fd reactor) = .ok (p', r) ∧
      After p p' [(.setReactor fd reactor, r)] := by
  refine ⟨(p.setReactor fd (some reactor)).1, (p.setReactor fd (some reactor)).2, rfl, ?_⟩
  rw [EventPoller.setReactor, FdPollerBase.setReactor]
  split_ifs with hrange hactive
  · exact .of_status h rfl rfl (by simp) fun _ _ => rfl
  · refine .of_status (h.setEntry (f := fun e => { e with reactor := some reactor }) ?_) rfl rfl
      (by simp) ?_
    · refine ⟨fun _ => by simp, fun he => ?_⟩
      rw [show (p.base.entry fd).status = .active from not_not.mp hactive] at he
      exact absurd he (by decide)
    · intro fd' _
      rcases eq_or_ne fd' fd with rfl | hne
      · simp [FdPollerBase.setEntry]
      · dsimp only
        rw [FdPollerBase.setEntry_status_of_ne hne]
  · exact .of_status h rfl rfl (by simp) fun _ _ => rfl

lemma Live.closeFd (h : p.Live) (malloc : Allocator (HmapEntry ℤ ℕ)) (fd : ℤ)
    (hroom : p.base.retiredSz < p.base.maxFds) :
    ∃ p' r, p.request malloc (.closeFd fd) = .ok (p', r) ∧ After p p' [(.closeFd fd, r)] := by
  rw [request, EventPoller.closeFd, FdPollerBase.closeFd, if_pos hroom]
  exact ⟨_, _, rfl, .of_status ⟨h.entry, h.pending, hroom⟩ rfl rfl nofun fun _ _ => rfl⟩

lemma Live.waitClose (h : p.Live) (malloc : Allocator (HmapEntry ℤ ℕ)) (fd : ℤ) :
    ∃ p' r, p.request malloc (.waitClose fd) = .ok (p', r) ∧ After p p' [(.waitClose fd, r)] := by
  rw [request, EventPoller.waitClose]
  by_cases hactive : p.base.InRange fd ∧ (p.base.entry fd).status = .active
  · obtain ⟨hrange, hactive⟩ := hactive
    rw [if_neg (not_not.mpr hrange), if_neg (not_not.mpr hactive), Driver.delEvent_eq _ hrange,
      onEntry, if_pos hrange.lt_maxFds]
    refine ⟨_, _, rfl, ?_⟩
    generalize (Driver.del (evRead ||| evWrite) (p.watch fd)).1 = w
    have hself : (((p.setWatch fd w).setEntry fd fun e =>
        { e with status := .waitClose, reactor := none }).base.entry fd).status = .waitClose := by
      simp [EventPoller.setEntry, FdPollerBase.setEntry]
    have hother : ∀ fd' ≠ fd, (((p.setWatch fd w).setEntry fd fun e =>
        { e with status := .waitClose, reactor := none }).base.entry fd').status =
          (p.base.entry fd').status := by
      intro fd' hne
      rw [EventPoller.setEntry, FdPollerBase.setEntry_status_of_ne hne]
      exact setWatch_status w fd'
    refine ⟨(h.setWatch w).setEntry ⟨fun he => absurd he (by simp), fun _ => rfl⟩, rfl, rfl, ?_, ?_,
      ?_⟩
    · intro fd' hwait
      rcases eq_or_ne fd' fd with rfl | hne
      · exact hself
      · exact (hother fd' hne).trans hwait
    · intro fd' _ hactive'
      rcases eq_or_ne fd' fd with rfl | hne
      · rw [if_pos (by simp)]
        exact hself
      · rw [if_neg (by simpa using hne)]
        exact (hother fd' hne).trans hactive'
    · intro fd' hmem
      obtain rfl : fd' = fd := by simpa using hmem
      exact hself
  · have hsame : After p p [(.waitClose fd, axRetError)] := by
      refine ⟨h, rfl, rfl, fun _ h => h, ?_, ?_⟩
      · intro fd' hrange' hactive'
        rw [if_neg]
        · exact hactive'
        · simp only [List.map_cons, List.map_nil, List.mem_singleton, Request.waitClose.injEq]
          rintro rfl
          exact hactive ⟨hrange', hactive'⟩
      · intro fd' hmem
        exact absurd (Prod.mk.inj (List.mem_singleton.mp hmem)).2 (by decide)
    refine ⟨p, axRetError, ?_, hsame⟩
    by_cases hrange : p.base.InRange fd
    · rw [if_neg (not_not.mpr hrange), if_pos fun he => hactive ⟨hrange, he⟩]
    · rw [if_pos hrange]

/-- **The calls of a callback** return, if there is room for the descriptors they retire. -/
lemma Live.requests (h : p.Live) (malloc : Allocator (HmapEntry ℤ ℕ)) {cs : List Request}
    (hroom : p.base.retiredSz + closings cs ≤ p.base.maxFds) :
    ∃ p' rs, p.requests malloc cs = .ok (p', rs) ∧ After p p' rs ∧ rs.map Prod.fst = cs := by
  induction cs generalizing p with
  | nil => exact ⟨p, [], rfl, .nil h, rfl⟩
  | cons c cs ih =>
      have hcount : closings (c :: cs) = closings [c] + closings cs := by
        simp only [closings, List.countP_cons, List.countP_nil]
        omega
      obtain ⟨p₁, r, hok, h₁⟩ : ∃ p₁ r, p.request malloc c = .ok (p₁, r) ∧ After p p₁ [(c, r)] := by
        cases c with
        | addFd fd reactor => exact h.addFd malloc fd reactor
        | setReactor fd reactor => exact h.setReactor malloc fd reactor
        | waitClose fd => exact h.waitClose malloc fd
        | closeFd fd =>
            refine h.closeFd malloc fd ?_
            have hone : closings [Request.closeFd fd] = 1 := rfl
            omega
      have hret := h₁.retired
      have hmax := h₁.maxFds
      simp only [List.map_cons, List.map_nil] at hret
      obtain ⟨p', rs, hoks, h₂, hfst⟩ := ih h₁.live (by omega)
      refine ⟨p', (c, r) :: rs, ?_, h₁.cons h₂, congrArg (c :: ·) hfst⟩
      rw [EventPoller.requests, hok, ok_bind]
      dsimp only
      rw [hoks]
      rfl

end EventPoller

/-! ## One batch -/

/-- **The batch was served**: every callback was on an active entry, and none came after a
`wait_close` of its descriptor had succeeded. -/
def Served (hist : List Done) : Prop :=
  (∀ d ∈ hist, d.callback.status = .active) ∧
    hist.Pairwise fun d d' => (Request.waitClose d'.callback.fd, axRetOk) ∉ d.calls

/-- The calls of `close_fd` in a batch. -/
def retirements (hist : List Done) : ℕ := (hist.map fun d => closings (d.calls.map Prod.fst)).sum

namespace EventPoller

variable {R : Type} {p p₀ : EventPoller R} {fd : ℤ} {hist : List Done} {react : Reaction}

/-- **The callbacks retire no more descriptors than `retired_` has room for.** -/
def Sparing (p : EventPoller R) (react : Reaction) : Prop :=
  ∀ hist cb, p.base.retiredSz + retirements hist ≤ p.base.maxFds →
    p.base.retiredSz + retirements hist + closings (react hist cb) ≤ p.base.maxFds

/-- What holds between two callbacks of a batch that began in `p₀`. -/
structure Serving (p₀ p : EventPoller R) (hist : List Done) : Prop where
  live : p.Live
  maxFds : p.base.maxFds = p₀.base.maxFds
  retired : p.base.retiredSz = p₀.base.retiredSz + retirements hist
  served : Served hist
  closed : ∀ d ∈ hist, ∀ fd, (Request.waitClose fd, axRetOk) ∈ d.calls →
    (p.base.entry fd).status = .waitClose

lemma Live.serving (h : p.Live) : Serving p p [] :=
  ⟨h, rfl, rfl, ⟨by simp, List.Pairwise.nil⟩, by simp⟩

/-- **One callback** on an active entry. -/
lemma Serving.callback [Driver R] (h : Serving p₀ p hist) (hroom : p₀.Sparing react)
    (hrange : p.base.InRange fd) (hactive : (p.base.entry fd).status = .active)
    (malloc : Allocator (HmapEntry ℤ ℕ)) (write : Bool) :
    ∃ r p' hist', (p.base.entry fd).reactor = some r ∧
      p.callback malloc react hist fd write = .ok (p', hist') ∧ Serving p₀ p' hist' ∧
      (p'.base.entry fd).status =
        if Request.waitClose fd ∈ react hist ⟨fd, write, r, .active⟩ then .waitClose
        else .active := by
  obtain ⟨r, hr⟩ := Option.ne_none_iff_exists'.mp ((h.live.entry fd hrange).1 hactive)
  have hfull : p₀.base.retiredSz + retirements hist ≤ p₀.base.maxFds := by
    rw [← h.retired, ← h.maxFds]
    exact h.live.room
  have hcalls := hroom hist ⟨fd, write, r, .active⟩ hfull
  rw [← h.retired, ← h.maxFds] at hcalls
  obtain ⟨p', rs, hok, hafter, hfst⟩ := h.live.requests malloc hcalls
  refine ⟨r, p', hist ++ [⟨⟨fd, write, r, .active⟩, rs⟩], hr, ?_, ?_, ?_⟩
  · rw [EventPoller.callback, hr]
    dsimp only
    rw [hactive, hok]
    rfl
  · refine ⟨hafter.live, hafter.maxFds.trans h.maxFds, ?_, ⟨?_, ?_⟩, ?_⟩
    · rw [hafter.retired, h.retired, retirements, retirements, List.map_append, List.sum_append]
      simp only [List.map_cons, List.map_nil, List.sum_cons, List.sum_nil]
      omega
    · intro d hd
      rcases List.mem_append.mp hd with hd | hd
      · exact h.served.1 d hd
      · rw [List.mem_singleton.mp hd]
    · refine List.pairwise_append.mpr ⟨h.served.2, List.pairwise_singleton .., ?_⟩
      intro d hd d' hd' hmem
      rw [List.mem_singleton.mp hd'] at hmem
      have hwait := h.closed d hd fd hmem
      exact absurd (hactive.symm.trans hwait) (by decide)
    · intro d hd fd' hmem
      rcases List.mem_append.mp hd with hd | hd
      · exact hafter.waiting fd' (h.closed d hd fd' hmem)
      · rw [List.mem_singleton.mp hd] at hmem
        exact hafter.closed fd' hmem
  · rw [hafter.active fd hrange hactive, hfst]

/-- **An event of an entry that is not active** makes no callback. -/
lemma Serving.drop [Driver R] (h : Serving p₀ p hist) (hrange : p.base.InRange fd) (flag : ℕ) :
    ∃ p' r, Driver.delEvent p fd flag = .ok (p', r) ∧ Serving p₀ p' hist := by
  rw [Driver.delEvent_eq _ hrange, onEntry, if_pos hrange.lt_maxFds]
  refine ⟨_, _, rfl, h.live.setWatch _, h.maxFds, h.retired, h.served, ?_⟩
  intro d hd fd' hmem
  rw [setWatch_status]
  exact h.closed d hd fd' hmem

end EventPoller

namespace EpollPoller

variable {p p₀ : EventPoller Reg} {hist : List Done} {malloc : Allocator (HmapEntry ℤ ℕ)}
  {react : Reaction} {e : Event}

/-- **An event that goes wrong**: it is readable and writable, and the callback for reading will
call `wait_close` on the descriptor. -/
def Cuts (react : Reaction) (p : EventPoller Reg) (hist : List Done) (e : Event) : Prop :=
  (p.base.entry e.fd).status = .active ∧ e.ready = ⟨true, true⟩ ∧
    ∃ r, (p.base.entry e.fd).reactor = some r ∧
      Request.waitClose e.fd ∈ react hist ⟨e.fd, false, r, .active⟩

/-- **The condition** on a batch: no event of it goes wrong when its turn comes. -/
def Quiet (malloc : Allocator (HmapEntry ℤ ℕ)) (react : Reaction) :
    EventPoller Reg → List Done → List Event → Prop
  | _, _, [] => True
  | p, hist, e :: es => ¬ Cuts react p hist e ∧
      ∀ p' hist', dispatch malloc react p hist e = .ok (p', hist') → Quiet malloc react p' hist' es

/-- An event that goes wrong calls `on_ev_write` on `NULL`. -/
lemma dispatch_of_cuts (h : EventPoller.Serving p₀ p hist) (hroom : p₀.Sparing react)
    (hrange : p.base.InRange e.fd) (hcuts : Cuts react p hist e) :
    dispatch malloc react p hist e = .error .badAccess := by
  obtain ⟨hactive, hready, r, hr, hmem⟩ := hcuts
  obtain ⟨r', p', hist', hr', hok, hs, hstatus⟩ :=
    h.callback hroom hrange hactive malloc false
  obtain rfl := Option.some.inj (hr.symm.trans hr')
  rw [if_pos hmem] at hstatus
  have hrange' : p'.base.InRange e.fd := by
    rw [FdPollerBase.InRange, hs.maxFds, ← h.maxFds]
    exact hrange
  have hnull := (hs.live.entry e.fd hrange').2 hstatus
  rw [dispatch, if_neg (not_not.mpr hrange.lt_maxFds), if_neg (not_not.mpr hactive), hready,
    if_pos rfl, hok, ok_bind]
  dsimp only
  rw [if_pos rfl, EventPoller.callback, hnull]

/-- Every other event is served. -/
lemma dispatch_of_not_cuts (h : EventPoller.Serving p₀ p hist) (hroom : p₀.Sparing react)
    (hrange : p.base.InRange e.fd) (hcuts : ¬ Cuts react p hist e)
    (malloc : Allocator (HmapEntry ℤ ℕ)) :
    ∃ p' hist', dispatch malloc react p hist e = .ok (p', hist') ∧
      EventPoller.Serving p₀ p' hist' := by
  rw [dispatch, if_neg (not_not.mpr hrange.lt_maxFds)]
  by_cases hactive : (p.base.entry e.fd).status = .active
  · rw [if_neg (not_not.mpr hactive)]
    obtain ⟨fd, ready⟩ := e
    rcases ready with ⟨_ | _, _ | _⟩
    · exact ⟨p, hist, rfl, h⟩
    · obtain ⟨r, p', hist', -, hok, hs, -⟩ := h.callback hroom hrange hactive malloc true
      exact ⟨p', hist', hok, hs⟩
    · obtain ⟨r, p', hist', -, hok, hs, -⟩ := h.callback hroom hrange hactive malloc false
      refine ⟨p', hist', ?_, hs⟩
      rw [if_pos rfl, hok]
      rfl
    · obtain ⟨r, p₁, hist₁, hr, hok, hs, hstatus⟩ :=
        h.callback hroom hrange hactive malloc false
      rw [if_neg fun hmem => hcuts ⟨hactive, rfl, r, hr, hmem⟩] at hstatus
      have hrange' : p₁.base.InRange fd := by
        rw [FdPollerBase.InRange, hs.maxFds, ← h.maxFds]
        exact hrange
      obtain ⟨r', p', hist', -, hok', hs', -⟩ :=
        hs.callback hroom hrange' hstatus malloc true
      refine ⟨p', hist', ?_, hs'⟩
      rw [if_pos rfl, hok, ok_bind]
      exact hok'
  · rw [if_pos hactive]
    obtain ⟨p', r, hok, hs⟩ := h.drop hrange (evRead ||| evWrite)
    refine ⟨p', hist, ?_, hs⟩
    rw [show delEvent p e.fd (evRead ||| evWrite) = _ from hok]
    rfl

/-- **A batch** that is quiet is served, and one that is not calls `on_ev_write` on `NULL`. -/
lemma dispatchAll_spec {es : List Event} (h : EventPoller.Serving p₀ p hist)
    (hroom : p₀.Sparing react) (hrange : ∀ e ∈ es, p₀.base.InRange e.fd)
    (malloc : Allocator (HmapEntry ℤ ℕ)) :
    (Quiet malloc react p hist es → ∃ p' hist',
      EventPoller.dispatchAll (dispatch malloc react) p hist es = .ok (p', hist') ∧
        EventPoller.Serving p₀ p' hist') ∧
    (¬ Quiet malloc react p hist es →
      EventPoller.dispatchAll (dispatch malloc react) p hist es = .error .badAccess) := by
  induction es generalizing p hist with
  | nil => exact ⟨fun _ => ⟨p, hist, rfl, h⟩, fun hquiet => absurd trivial hquiet⟩
  | cons e es ih =>
      have hrange' : p.base.InRange e.fd := by
        rw [FdPollerBase.InRange, h.maxFds]
        exact hrange e List.mem_cons_self
      rw [EventPoller.dispatchAll, Quiet]
      by_cases hcuts : Cuts react p hist e
      · rw [dispatch_of_cuts h hroom hrange' hcuts]
        exact ⟨fun hquiet => absurd hcuts hquiet.1, fun _ => rfl⟩
      · obtain ⟨p₁, hist₁, hok, hs⟩ := dispatch_of_not_cuts h hroom hrange' hcuts malloc
        obtain ⟨hserved, hfault⟩ := ih hs fun e' he' => hrange e' (List.mem_cons_of_mem e he')
        rw [hok, ok_bind]
        refine ⟨fun hquiet => hserved (hquiet.2 p₁ hist₁ rfl), fun hquiet => hfault fun htail => ?_⟩
        refine hquiet ⟨hcuts, ?_⟩
        intro p' hist' heq
        obtain ⟨rfl, rfl⟩ := Prod.mk.inj (Except.ok.inj heq)
        exact htail

end EpollPoller

namespace KqueuePoller

variable {p p₀ : EventPoller Reg} {hist : List Done} {react : Reaction}

/-- Every event is served: it is looked up in the table before its only callback. -/
lemma dispatch_serves {e : Event} (h : EventPoller.Serving p₀ p hist) (hroom : p₀.Sparing react)
    (hrange : p.base.InRange e.fd) (malloc : Allocator (HmapEntry ℤ ℕ)) :
    ∃ p' hist', dispatch malloc react p hist e = .ok (p', hist') ∧
      EventPoller.Serving p₀ p' hist' := by
  rw [dispatch, if_neg (not_not.mpr hrange.lt_maxFds)]
  by_cases hactive : (p.base.entry e.fd).status = .active
  · rw [if_neg (not_not.mpr hactive)]
    obtain ⟨r, p', hist', -, hok, hs, -⟩ := h.callback hroom hrange hactive malloc e.write
    exact ⟨p', hist', hok, hs⟩
  · rw [if_pos hactive]
    obtain ⟨p', r, hok, hs⟩ := h.drop hrange (evRead ||| evWrite)
    refine ⟨p', hist, ?_, hs⟩
    rw [show delEvent p e.fd (evRead ||| evWrite) = _ from hok]
    rfl

/-- **A batch** is served. -/
lemma dispatchAll_serves {es : List Event} (h : EventPoller.Serving p₀ p hist)
    (hroom : p₀.Sparing react) (hrange : ∀ e ∈ es, p₀.base.InRange e.fd)
    (malloc : Allocator (HmapEntry ℤ ℕ)) :
    ∃ p' hist', EventPoller.dispatchAll (dispatch malloc react) p hist es = .ok (p', hist') ∧
      EventPoller.Serving p₀ p' hist' := by
  induction es generalizing p hist with
  | nil => exact ⟨p, hist, rfl, h⟩
  | cons e es ih =>
      have hrange' : p.base.InRange e.fd := by
        rw [FdPollerBase.InRange, h.maxFds]
        exact hrange e List.mem_cons_self
      obtain ⟨p₁, hist₁, hok, hs⟩ := dispatch_serves h hroom hrange' malloc
      rw [EventPoller.dispatchAll, hok, ok_bind]
      exact ih hs fun e' he' => hrange e' (List.mem_cons_of_mem e he')

end KqueuePoller

/-! ## The end of a turn -/

namespace EventPoller

variable {R : Type} [Driver R] {p p' : EventPoller R}

lemma Live.closeRetired {n i : ℕ} {closed : List ℤ} (h : p.Live)
    (hok : EventPoller.closeRetired n i p = .ok (p', closed)) : p'.Live := by
  induction n generalizing i p closed with
  | zero =>
      obtain ⟨rfl, -⟩ := Prod.mk.inj (Except.ok.inj hok)
      exact h
  | succ n ih =>
      rw [EventPoller.closeRetired] at hok
      dsimp only at hok
      split_ifs at hok
      obtain ⟨⟨p₁, r⟩, hdel, hok⟩ := bind_eq_ok hok
      obtain ⟨w, rfl⟩ := Driver.delEvent_touches hdel
      obtain ⟨⟨p₂, rest⟩, hrest, hok⟩ := bind_eq_ok hok
      obtain ⟨rfl, -⟩ := Prod.mk.inj (Except.ok.inj hok)
      exact ih ((h.setWatch w).resetFd _) hrest

lemma Live.applyPending {fuel : ℕ} {q : Option ℕ} {applied : List (ℕ × ℤ × Option ℕ)} (h : p.Live)
    (hok : EventPoller.applyPending fuel p q = .ok (p', applied)) : p'.Live := by
  induction fuel generalizing p q applied with
  | zero =>
      cases q with
      | none =>
          obtain ⟨rfl, -⟩ := Prod.mk.inj (Except.ok.inj hok)
          exact h
      | some a => exact absurd hok nofun
  | succ fuel ih =>
      cases q with
      | none =>
          obtain ⟨rfl, -⟩ := Prod.mk.inj (Except.ok.inj hok)
          exact h
      | some a =>
          rw [EventPoller.applyPending] at hok
          obtain ⟨e, he, hok⟩ := bind_eq_ok hok
          split_ifs at hok
          dsimp only at hok
          obtain ⟨⟨p₁, r⟩, hadd, hok⟩ := bind_eq_ok hok
          obtain ⟨w, rfl⟩ := Driver.addEvent_touches hadd
          obtain ⟨⟨p₂, rest⟩, hrest, hok⟩ := bind_eq_ok hok
          obtain ⟨rfl, -⟩ := Prod.mk.inj (Except.ok.inj hok)
          refine ih (Live.setWatch (h.setEntry ?_) w) hrest
          obtain ⟨l, b, hstores, hdata⟩ := h.pending
          have hmem := (hstores.mem_iff ⟨a, e.key, e.data⟩).mpr
            (by simp [HmapT.contents, Heap.field, deref_eq_ok he])
          exact ⟨fun _ => hdata _ hmem, fun hs => absurd hs (by simp)⟩

lemma Live.finish {log : PollerLog} (h : p.Live) (hok : p.finish = .ok (p', log)) : p'.Live := by
  obtain ⟨⟨p₁, closed⟩, hclose, hok⟩ := bind_eq_ok hok
  obtain ⟨⟨p₂, applied⟩, happly, hok⟩ := bind_eq_ok hok
  obtain ⟨rfl, -⟩ := Prod.mk.inj (Except.ok.inj hok)
  have h₁ := h.closeRetired hclose
  have h₂ : Live { p₁ with base := { p₁.base with retiredSz := 0 } } :=
    ⟨h₁.entry, h₁.pending, Nat.zero_le _⟩
  exact h₂.applyPending happly

/-! ## Runs -/

/-- **The pollers reached** by calls with reactors that are not `NULL` and by turns of the loop,
whose events are for descriptors in range (`eventFd`). -/
inductive Reached {ε : Type} (malloc : Allocator (HmapEntry ℤ ℕ))
    (doPoll : Reaction → EventPoller R → Option (List ε) →
      Except Fault (EventPoller R × List Done × ℤ)) (eventFd : ε → ℤ) (maxn : ℕ) :
    EventPoller R → Prop
  | new {os : Libc} {junk : ℤ → PollerEntry} {timetick : ℤ} {p : EventPoller R} (hos : os.Total)
      (hstep : EventPoller.new os junk maxn timetick = .ok p) : Reached malloc doPoll eventFd maxn p
  | request {p p' : EventPoller R} {c : Request} {r : ℤ}
      (hrun : Reached malloc doPoll eventFd maxn p)
      (hroom : p.base.retiredSz + closings [c] ≤ p.base.maxFds)
      (hstep : p.request malloc c = .ok (p', r)) : Reached malloc doPoll eventFd maxn p'
  | turn {p p₁ p' : EventPoller R} {react : Reaction} {events : List ε} {hist : List Done} {r : ℤ}
      {log : PollerLog} (hrun : Reached malloc doPoll eventFd maxn p) (hroom : p.Sparing react)
      (hrange : ∀ e ∈ events, p.base.InRange (eventFd e))
      (hpoll : doPoll react p (some events) = .ok (p₁, hist, r))
      (hfin : p₁.finish = .ok (p', log)) : Reached malloc doPoll eventFd maxn p'

lemma Live.ofNew {os : Libc} {junk : ℤ → PollerEntry} {maxn : ℕ} {timetick : ℤ} (hos : os.Total)
    (hstep : EventPoller.new os junk maxn timetick = .ok p) : p.Live := by
  obtain ⟨base, hbase, hstep⟩ := bind_eq_ok hstep
  obtain rfl := Except.ok.inj hstep
  obtain ⟨-, -, hbase⟩ := bind_eq_ok hbase
  obtain ⟨m, hm, hbase⟩ := bind_eq_ok hbase
  obtain ⟨m', hm', -, hstores⟩ := HmapT.Stores.new (K := ℤ) (V := ℕ) hos
    (show 0 < 10 by decide) (by decide)
  obtain rfl := Except.ok.inj (hm.symm.trans hm')
  obtain rfl := Except.ok.inj hbase
  refine ⟨?_, ⟨[], _, hstores, by simp⟩, Nat.zero_le _⟩
  intro fd hrange
  have hentry : 0 ≤ fd ∧ fd < i32 maxn := hrange
  simp [PollerEntry.Sane, hentry]

/-- Every reached poller is live, where batches that return leave it so. -/
lemma Reached.live {ε : Type} {malloc : Allocator (HmapEntry ℤ ℕ)}
    {doPoll : Reaction → EventPoller R → Option (List ε) →
      Except Fault (EventPoller R × List Done × ℤ)} {eventFd : ε → ℤ} {maxn : ℕ}
    (hpoll : ∀ {p p₁ : EventPoller R} {react : Reaction} {events : List ε} {hist : List Done}
      {r : ℤ}, p.Live → p.Sparing react → (∀ e ∈ events, p.base.InRange (eventFd e)) →
      doPoll react p (some events) = .ok (p₁, hist, r) → p₁.Live)
    (h : Reached malloc doPoll eventFd maxn p) : p.Live := by
  induction h with
  | new hos hstep => exact .ofNew hos hstep
  | @request _ _ c _ _ hroom hstep ih =>
      obtain ⟨p₁, rs, hok, hafter, -⟩ := ih.requests malloc hroom
      rw [EventPoller.requests, hstep, ok_bind] at hok
      obtain ⟨rfl, -⟩ := Prod.mk.inj (Except.ok.inj hok)
      exact hafter.live
  | turn _ hroom hrange hstep hfin ih => exact (hpoll ih hroom hrange hstep).finish hfin

end EventPoller

/-- The pollers reached with `epoll`. -/
def EpollPoller.Reached (malloc : Allocator (HmapEntry ℤ ℕ)) (maxn : ℕ) (p : EventPoller Reg) :
    Prop :=
  EventPoller.Reached malloc (doPoll malloc) Event.fd maxn p

/-- The pollers reached with `kqueue`. -/
def KqueuePoller.Reached (malloc : Allocator (HmapEntry ℤ ℕ)) (maxn : ℕ) (p : EventPoller Reg) :
    Prop :=
  EventPoller.Reached malloc (doPoll malloc) Event.fd maxn p

lemma EpollPoller.Reached.live {malloc : Allocator (HmapEntry ℤ ℕ)} {maxn : ℕ} {p : EventPoller Reg}
    (h : EpollPoller.Reached malloc maxn p) : p.Live := by
  refine EventPoller.Reached.live ?_ h
  intro p p₁ react events hist r hlive hroom hrange hstep
  obtain ⟨⟨p₂, hist₂⟩, hall, hstep⟩ := bind_eq_ok hstep
  obtain ⟨hserved, hfault⟩ := dispatchAll_spec hlive.serving hroom hrange malloc
  by_cases hquiet : Quiet malloc react p [] events
  · obtain ⟨p', hist', hok, hs⟩ := hserved hquiet
    obtain ⟨rfl, rfl⟩ := Prod.mk.inj (Except.ok.inj (hok.symm.trans hall))
    obtain ⟨rfl, -⟩ := Prod.mk.inj (Except.ok.inj hstep)
    exact hs.live
  · exact absurd ((hfault hquiet).symm.trans hall) nofun

lemma KqueuePoller.Reached.live {malloc : Allocator (HmapEntry ℤ ℕ)} {maxn : ℕ}
    {p : EventPoller Reg} (h : KqueuePoller.Reached malloc maxn p) : p.Live := by
  refine EventPoller.Reached.live ?_ h
  intro p p₁ react events hist r hlive hroom hrange hstep
  obtain ⟨⟨p₂, hist₂⟩, hall, hstep⟩ := bind_eq_ok hstep
  obtain ⟨p', hist', hok, hs⟩ := dispatchAll_serves hlive.serving hroom hrange malloc
  obtain ⟨rfl, rfl⟩ := Prod.mk.inj (Except.ok.inj (hok.symm.trans hall))
  obtain ⟨rfl, -⟩ := Prod.mk.inj (Except.ok.inj hstep)
  exact hs.live

/-- **When events reach live reactors only.**  For every poller reached, every batch of events for
descriptors in range and all callbacks that retire no more descriptors than there is room for: with
`epoll`, the batch is served if and only if it is quiet; with `kqueue`, it is served. -/
theorem dispatch_live_iff (malloc : Allocator (HmapEntry ℤ ℕ)) (maxn : ℕ) :
    (∀ p, EpollPoller.Reached malloc maxn p → ∀ (react : Reaction)
      (events : List EpollPoller.Event), p.Sparing react → (∀ e ∈ events, p.base.InRange e.fd) →
      ((∃ p' hist r, EpollPoller.doPoll malloc react p (some events) = .ok (p', hist, r) ∧
        Served hist) ↔ EpollPoller.Quiet malloc react p [] events)) ∧
    ∀ p, KqueuePoller.Reached malloc maxn p → ∀ (react : Reaction)
      (events : List KqueuePoller.Event), p.Sparing react → (∀ e ∈ events, p.base.InRange e.fd) →
      ∃ p' hist r, KqueuePoller.doPoll malloc react p (some events) = .ok (p', hist, r) ∧
        Served hist := by
  constructor
  · intro p hp react events hroom hrange
    obtain ⟨hserved, hfault⟩ :=
      EpollPoller.dispatchAll_spec hp.live.serving hroom hrange malloc
    rw [EpollPoller.doPoll, EventPoller.poll]
    constructor
    · rintro ⟨p', hist, r, hok, -⟩
      by_contra hquiet
      rw [hfault hquiet] at hok
      exact absurd hok nofun
    · intro hquiet
      obtain ⟨p', hist, hok, hs⟩ := hserved hquiet
      rw [hok]
      exact ⟨p', hist, events.length, rfl, hs.served⟩
  · intro p hp react events hroom hrange
    obtain ⟨p', hist, hok, hs⟩ :=
      KqueuePoller.dispatchAll_serves hp.live.serving hroom hrange malloc
    rw [KqueuePoller.doPoll, EventPoller.poll, hok]
    exact ⟨p', hist, events.length, rfl, hs.served⟩

/-- A reactor that closes its descriptor in its first callback. -/
def closeAtOnce : Reaction := fun _ cb => [.waitClose cb.fd]

/-- A reactor that closes its descriptor in its callback for writing. -/
def closeOnWrite : Reaction := fun _ cb => if cb.write then [.waitClose cb.fd] else []

/-- A poller with `epoll` and four descriptors, the descriptor 2 of which has been added. -/
lemma reached_added : ∃ p, EpollPoller.Reached (Allocator.above _ 1) 4 p ∧
    p.base.InRange 2 ∧ (p.base.entry 2).status = .active ∧ (p.base.entry 2).reactor = some 7 := by
  have h₀ : EpollPoller.Reached (Allocator.above _ 1) 4 _ :=
    EventPoller.Reached.new zeroLibc_total
      (show EventPoller.new zeroLibc (fun _ => ⟨0, .empty, none⟩) 4 100 = .ok _ from rfl)
  have h₁ : EpollPoller.Reached (Allocator.above _ 1) 4 _ :=
    EventPoller.Reached.request h₀ (c := .addFd 2 7) (by decide)
      (show EventPoller.request _ _ _ = .ok (_, _) from rfl)
  exact ⟨_, h₁, by decide, by decide, by decide⟩

/-- The descriptor is closed in the second half of its event. -/
theorem dispatch_live_on_write : ∃ p p' hist r, EpollPoller.Reached (Allocator.above _ 1) 4 p ∧
    EpollPoller.doPoll (Allocator.above _ 1) closeOnWrite p (some [⟨2, ⟨true, true⟩⟩]) =
      .ok (p', hist, r) ∧ Served hist := by
  obtain ⟨p, hp, hrange, -⟩ := reached_added
  have hroom : p.Sparing closeOnWrite := by
    intro hist cb h
    cases hw : cb.write <;> simpa [closeOnWrite, closings, hw] using h
  have hquiet : EpollPoller.Quiet (Allocator.above _ 1) closeOnWrite p [] [⟨2, ⟨true, true⟩⟩] := by
    refine ⟨?_, fun _ _ _ => trivial⟩
    rintro ⟨-, -, r, -, hmem⟩
    simp [closeOnWrite] at hmem
  obtain ⟨p', hist, r, hok, hs⟩ := ((dispatch_live_iff (Allocator.above _ 1) 4).1 p hp closeOnWrite
    [⟨2, ⟨true, true⟩⟩] hroom (by simpa using hrange)).mpr hquiet
  exact ⟨p, p', hist, r, hp, hok, hs⟩

/-- The descriptor is closed in the first half: the second half is called on `NULL`. -/
theorem dispatch_live_fails : ∃ p, EpollPoller.Reached (Allocator.above _ 1) 4 p ∧
    p.Sparing closeAtOnce ∧ p.base.InRange 2 ∧
    EpollPoller.doPoll (Allocator.above _ 1) closeAtOnce p (some [⟨2, ⟨true, true⟩⟩]) =
      .error .badAccess := by
  obtain ⟨p, hp, hrange, hactive, hreactor⟩ := reached_added
  have hroom : p.Sparing closeAtOnce := fun hist cb h => by simpa [closeAtOnce, closings] using h
  refine ⟨p, hp, hroom, hrange, ?_⟩
  rw [EpollPoller.doPoll, EventPoller.poll, EventPoller.dispatchAll,
    EpollPoller.dispatch_of_cuts hp.live.serving hroom hrange
      ⟨hactive, rfl, 7, hreactor, by simp [closeAtOnce]⟩]
  rfl

end Axon
