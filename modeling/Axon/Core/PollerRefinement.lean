import Axon.Core.PollerAgreement

/-!
# The pollers refine their base class

`epoll` and `kqueue` register descriptors differently, and `epoll` refuses what `kqueue` accepts.
Nothing of that can be seen but in the events they report: a program that makes the same calls sees
the same results, registrations and closings with either, namely those of the base class with a
kernel that accepts everything.

* **`Seen`** : what can be seen of a call, and of a turn of the loop.
* **`FdPollerBase.Shows`**, **`EventPoller.Shows`** : runs, with what was seen.
* **`EventPoller.Shows.refines`** : a run of a poller is one of the base class.
* **`FdPollerBase.Shows.unique`** : what is asked for determines what is seen.
* **`pollers_interchangeable`** : for either poller, and for one in place of the other.
-/

namespace Axon

open Library

/-- **What can be seen**: the result of a call; the calls of the callbacks of a turn, with their
results, and what the end of the turn does. -/
inductive Seen where
  | called (c : Request) (r : ℤ)
  | turned (calls : List (Request × ℤ)) (log : PollerLog)

/-- What was asked for. -/
def Seen.asked : Seen → Request ⊕ List Request
  | .called c _ => .inl c
  | .turned calls _ => .inr (calls.map Prod.fst)

/-! ## The base class -/

namespace FdPollerBase

/-- Makes a call. -/
def request (malloc : Allocator (HmapEntry ℤ ℕ)) (q : FdPollerBase) (c : Request) :
    Except Fault (FdPollerBase × ℤ) :=
  q.call (c.call (malloc.new q.pendingNew.entries))

/-- Makes the calls one after the other. -/
def requests (malloc : Allocator (HmapEntry ℤ ℕ)) :
    FdPollerBase → List Request → Except Fault (FdPollerBase × List (Request × ℤ))
  | q, [] => .ok (q, [])
  | q, c :: cs => do
      let (q, r) ← q.request malloc c
      let (q, rs) ← requests malloc q cs
      pure (q, (c, r) :: rs)

/-- **Runs of the base class**, with what was seen, the latest first. -/
inductive Shows (malloc : Allocator (HmapEntry ℤ ℕ)) (os : Libc) (junk : ℤ → PollerEntry)
    (maxn : ℕ) (timetick : ℤ) : FdPollerBase → List Seen → Prop
  | new {q : FdPollerBase} (hnew : FdPollerBase.new os junk maxn timetick = .ok q) :
      Shows malloc os junk maxn timetick q []
  | call {q q' : FdPollerBase} {tr : List Seen} {c : Request} {r : ℤ}
      (h : Shows malloc os junk maxn timetick q tr) (hcall : q.request malloc c = .ok (q', r)) :
      Shows malloc os junk maxn timetick q' (.called c r :: tr)
  | turn {q q₁ q' : FdPollerBase} {tr : List Seen} {cs : List Request}
      {calls : List (Request × ℤ)} {log : PollerLog}
      (h : Shows malloc os junk maxn timetick q tr)
      (hcalls : q.requests malloc cs = .ok (q₁, calls)) (hfinish : q₁.finish = .ok (q', log)) :
      Shows malloc os junk maxn timetick q' (.turned calls log :: tr)

section Requests

variable {malloc : Allocator (HmapEntry ℤ ℕ)} {q q₁ q' : FdPollerBase} {cs cs' : List Request}
  {calls calls' : List (Request × ℤ)}

/-- The results are those of the calls asked for. -/
lemma requests_fst (h : q.requests malloc cs = .ok (q', calls)) : calls.map Prod.fst = cs := by
  induction cs generalizing q calls with
  | nil =>
      obtain ⟨-, rfl⟩ := Prod.mk.inj (Except.ok.inj h)
      rfl
  | cons c cs ih =>
      obtain ⟨⟨q₁, r⟩, -, h⟩ := bind_eq_ok h
      obtain ⟨⟨q₂, rs⟩, hrest, h⟩ := bind_eq_ok h
      obtain ⟨rfl, rfl⟩ := Prod.mk.inj (Except.ok.inj h)
      rw [List.map_cons, ih hrest]

lemma requests_append (h : q.requests malloc cs = .ok (q₁, calls))
    (h' : q₁.requests malloc cs' = .ok (q', calls')) :
    q.requests malloc (cs ++ cs') = .ok (q', calls ++ calls') := by
  induction cs generalizing q calls with
  | nil =>
      obtain ⟨rfl, rfl⟩ := Prod.mk.inj (Except.ok.inj h)
      exact h'
  | cons c cs ih =>
      obtain ⟨⟨q₂, r⟩, hcall, h⟩ := bind_eq_ok h
      obtain ⟨⟨q₃, rs⟩, hrest, h⟩ := bind_eq_ok h
      obtain ⟨rfl, rfl⟩ := Prod.mk.inj (Except.ok.inj h)
      rw [List.cons_append, requests, hcall, ok_bind]
      dsimp only
      rw [ih hrest]
      rfl

end Requests

/-- **What is asked for determines what is seen**, and the poller. -/
lemma Shows.unique {malloc : Allocator (HmapEntry ℤ ℕ)} {os : Libc} {junk : ℤ → PollerEntry}
    {maxn : ℕ} {timetick : ℤ} {q q' : FdPollerBase} {tr tr' : List Seen}
    (h : Shows malloc os junk maxn timetick q tr) (h' : Shows malloc os junk maxn timetick q' tr')
    (hasked : tr.map Seen.asked = tr'.map Seen.asked) : q = q' ∧ tr = tr' := by
  induction h generalizing q' tr' with
  | new hnew =>
      cases h' with
      | new hnew' => exact ⟨Except.ok.inj (hnew.symm.trans hnew'), rfl⟩
      | call _ _ => cases hasked
      | turn _ _ _ => cases hasked
  | call _ hcall ih =>
      cases h' with
      | new _ => cases hasked
      | call h' hcall' =>
          obtain ⟨hc, hrest⟩ := List.cons.inj hasked
          obtain rfl := Sum.inl.inj hc
          obtain ⟨rfl, rfl⟩ := ih h' hrest
          obtain ⟨rfl, rfl⟩ := Prod.mk.inj (Except.ok.inj (hcall.symm.trans hcall'))
          exact ⟨rfl, rfl⟩
      | turn _ _ _ => exact absurd (List.cons.inj hasked).1 Sum.inl_ne_inr
  | turn _ hcalls hfinish ih =>
      cases h' with
      | new _ => cases hasked
      | call _ _ => exact absurd (List.cons.inj hasked).1 Sum.inr_ne_inl
      | turn h' hcalls' hfinish' =>
          obtain ⟨hc, hrest⟩ := List.cons.inj hasked
          obtain ⟨rfl, rfl⟩ := ih h' hrest
          have hcs := Sum.inr.inj hc
          rw [requests_fst hcalls, requests_fst hcalls'] at hcs
          subst hcs
          obtain ⟨rfl, rfl⟩ := Prod.mk.inj (Except.ok.inj (hcalls.symm.trans hcalls'))
          obtain ⟨rfl, rfl⟩ := Prod.mk.inj (Except.ok.inj (hfinish.symm.trans hfinish'))
          exact ⟨rfl, rfl⟩

end FdPollerBase

/-! ## The pollers -/

namespace EventPoller

variable {R : Type} [Driver R] {ε : Type}

/-- **Runs of a poller**, with what was seen: the callbacks of the timer make the calls `timer`, and
those of `do_poll` react to the events the kernel reports. -/
inductive Shows (malloc : Allocator (HmapEntry ℤ ℕ))
    (doPoll : Reaction → EventPoller R → Option (List ε) →
      Except Fault (EventPoller R × List Done × ℤ))
    (os : Libc) (junk : ℤ → PollerEntry) (maxn : ℕ) (timetick : ℤ) :
    EventPoller R → List Seen → Prop
  | new {p : EventPoller R} (hnew : EventPoller.new os junk maxn timetick = .ok p) :
      Shows malloc doPoll os junk maxn timetick p []
  | call {p p' : EventPoller R} {tr : List Seen} {c : Request} {r : ℤ}
      (h : Shows malloc doPoll os junk maxn timetick p tr)
      (hcall : p.request malloc c = .ok (p', r)) :
      Shows malloc doPoll os junk maxn timetick p' (.called c r :: tr)
  | turn {p p₁ p₂ p' : EventPoller R} {tr : List Seen} {timer : List Request}
      {called : List (Request × ℤ)} {react : Reaction} {events : Option (List ε)}
      {hist : List Done} {r : ℤ} {log : PollerLog}
      (h : Shows malloc doPoll os junk maxn timetick p tr)
      (htimer : p.requests malloc timer = .ok (p₁, called))
      (hpoll : doPoll react p₁ events = .ok (p₂, hist, r)) (hfinish : p₂.finish = .ok (p', log)) :
      Shows malloc doPoll os junk maxn timetick p'
        (.turned (called ++ hist.flatMap Done.calls) log :: tr)

section Refines

variable {malloc : Allocator (HmapEntry ℤ ℕ)} {p p' : EventPoller R} {q : FdPollerBase}

lemma requests_agree {cs : List Request} {calls : List (Request × ℤ)} (hq : p.base.Agree q)
    (h : p.requests malloc cs = .ok (p', calls)) :
    ∃ q', q.requests malloc cs = .ok (q', calls) ∧ p'.base.Agree q' := by
  induction cs generalizing p q calls with
  | nil =>
      obtain ⟨rfl, rfl⟩ := Prod.mk.inj (Except.ok.inj h)
      exact ⟨q, rfl, hq⟩
  | cons c cs ih =>
      obtain ⟨⟨p₁, r⟩, hcall, h⟩ := bind_eq_ok h
      obtain ⟨⟨p₂, rs⟩, hrest, h⟩ := bind_eq_ok h
      obtain ⟨rfl, rfl⟩ := Prod.mk.inj (Except.ok.inj h)
      obtain ⟨q₁, hcall', hq₁⟩ := request_agrees hq hcall
      obtain ⟨q₂, hrest', hq₂⟩ := ih hq₁ hrest
      refine ⟨q₂, ?_, hq₂⟩
      rw [FdPollerBase.requests, FdPollerBase.request, hcall', ok_bind]
      dsimp only
      rw [hrest']
      rfl

/-- **What the callbacks of a batch do** is what their calls do to the base class. -/
def Replays (malloc : Allocator (HmapEntry ℤ ℕ)) (p' : EventPoller R) (q : FdPollerBase)
    (hist hist' : List Done) : Prop :=
  ∃ new cs q', hist' = hist ++ new ∧
    q.requests malloc cs = .ok (q', new.flatMap Done.calls) ∧ p'.base.Agree q'

omit [Driver R] in
lemma Replays.silent {hist : List Done} (hq : p.base.Agree q) : Replays malloc p q hist hist :=
  ⟨[], [], q, (List.append_nil hist).symm, rfl, hq⟩

omit [Driver R] in
/-- One batch after another. -/
lemma Replays.then {p₂ : EventPoller R} {hist hist₁ hist₂ : List Done}
    (h : Replays malloc p' q hist hist₁)
    (hnext : ∀ q', p'.base.Agree q' → Replays malloc p₂ q' hist₁ hist₂) :
    Replays malloc p₂ q hist hist₂ := by
  obtain ⟨new, cs, q₁, rfl, hcalls, hq₁⟩ := h
  obtain ⟨new₂, cs₂, q₂, rfl, hcalls₂, hq₂⟩ := hnext q₁ hq₁
  refine ⟨new ++ new₂, cs ++ cs₂, q₂, List.append_assoc .., ?_, hq₂⟩
  rw [List.flatMap_append]
  exact FdPollerBase.requests_append hcalls hcalls₂

lemma callback_replays {react : Reaction} {hist hist' : List Done} {fd : ℤ} {write : Bool}
    (hq : p.base.Agree q) (h : p.callback malloc react hist fd write = .ok (p', hist')) :
    Replays malloc p' q hist hist' := by
  rw [callback] at h
  cases hreactor : (p.base.entry fd).reactor with
  | none =>
      rw [hreactor] at h
      cases h
  | some reactor =>
      rw [hreactor] at h
      obtain ⟨⟨p₁, calls⟩, hcalls, h⟩ := bind_eq_ok h
      obtain ⟨rfl, rfl⟩ := Prod.mk.inj (Except.ok.inj h)
      obtain ⟨q₁, hcalls', hq₁⟩ := requests_agree hq hcalls
      exact ⟨_, _, q₁, rfl, by simpa using hcalls', hq₁⟩

/-- An event of a descriptor that is not active changes masks only. -/
lemma dropEvent_replays {hist : List Done} {fd : ℤ} {r : ℤ} (hq : p.base.Agree q)
    (h : Driver.delEvent p fd (evRead ||| evWrite) = .ok (p', r)) :
    Replays malloc p' q hist hist := by
  obtain ⟨w, rfl⟩ := Driver.delEvent_touches h
  have hsame : (p.setWatch fd w).base.Agree p.base := by
    refine ⟨fun fd' => ?_, rfl, rfl, rfl, rfl⟩
    rcases eq_or_ne fd' fd with rfl | hne
    · simp [setWatch, FdPollerBase.setEntry, PollerEntry.core]
    · simp [setWatch, FdPollerBase.setEntry, hne]
  exact .silent (hsame.trans hq)

omit [Driver R] in
lemma dispatchAll_replays
    {one : EventPoller R → List Done → ε → Except Fault (EventPoller R × List Done)}
    (hone : ∀ {p p' : EventPoller R} {q : FdPollerBase} {hist hist' : List Done} {e : ε},
      p.base.Agree q → one p hist e = .ok (p', hist') → Replays malloc p' q hist hist')
    {hist hist' : List Done} {es : List ε} (hq : p.base.Agree q)
    (h : dispatchAll one p hist es = .ok (p', hist')) : Replays malloc p' q hist hist' := by
  induction es generalizing p q hist with
  | nil =>
      obtain ⟨rfl, rfl⟩ := Prod.mk.inj (Except.ok.inj h)
      exact .silent hq
  | cons e es ih =>
      obtain ⟨⟨p₁, hist₁⟩, hfirst, hrest⟩ := bind_eq_ok h
      exact (hone hq hfirst).then fun q' hq' => ih hq' hrest

omit [Driver R] in
lemma poll_replays
    {one : EventPoller R → List Done → ε → Except Fault (EventPoller R × List Done)}
    (hone : ∀ {p p' : EventPoller R} {q : FdPollerBase} {hist hist' : List Done} {e : ε},
      p.base.Agree q → one p hist e = .ok (p', hist') → Replays malloc p' q hist hist')
    {hist : List Done} {events : Option (List ε)} {r : ℤ} (hq : p.base.Agree q)
    (h : p.poll one events = .ok (p', hist, r)) : Replays malloc p' q [] hist := by
  cases events with
  | none =>
      obtain ⟨rfl, hrest⟩ := Prod.mk.inj (Except.ok.inj h)
      obtain ⟨rfl, -⟩ := Prod.mk.inj hrest
      exact .silent hq
  | some es =>
      obtain ⟨⟨p₁, hist₁⟩, hall, h⟩ := bind_eq_ok h
      obtain ⟨rfl, hrest⟩ := Prod.mk.inj (Except.ok.inj h)
      obtain ⟨rfl, -⟩ := Prod.mk.inj hrest
      exact dispatchAll_replays hone hq hall

variable {os : Libc} {junk : ℤ → PollerEntry} {maxn : ℕ} {timetick : ℤ}
  {doPoll : Reaction → EventPoller R → Option (List ε) →
    Except Fault (EventPoller R × List Done × ℤ)} {tr : List Seen}

/-- **A run of a poller is one of the base class**, where the callbacks of `do_poll` do what their
calls do. -/
lemma Shows.refines
    (hpolls : ∀ {p p' : EventPoller R} {q : FdPollerBase} {react : Reaction} {hist : List Done}
      {events : Option (List ε)} {r : ℤ}, p.base.Agree q →
      doPoll react p events = .ok (p', hist, r) → Replays malloc p' q [] hist)
    (h : Shows malloc doPoll os junk maxn timetick p tr) :
    ∃ q, FdPollerBase.Shows malloc os junk maxn timetick q tr ∧ p.base.Agree q := by
  induction h with
  | new hnew =>
      obtain ⟨base, hbase, hnew⟩ := bind_eq_ok hnew
      obtain rfl := Except.ok.inj hnew
      exact ⟨base, .new hbase, .refl base⟩
  | call _ hcall ih =>
      obtain ⟨q, hshows, hq⟩ := ih
      obtain ⟨q', hcall', hq'⟩ := request_agrees hq hcall
      exact ⟨q', hshows.call hcall', hq'⟩
  | turn _ htimer hpoll hfinish ih =>
      obtain ⟨q, hshows, hq⟩ := ih
      obtain ⟨q₁, htimer', hq₁⟩ := requests_agree hq htimer
      obtain ⟨new, cs, q₂, rfl, hcalls, hq₂⟩ := hpolls hq₁ hpoll
      obtain ⟨q', hfinish', hq'⟩ := finish_agrees hq₂ hfinish
      exact ⟨q', hshows.turn (FdPollerBase.requests_append htimer' hcalls) hfinish', hq'⟩

end Refines

end EventPoller

section Drivers

variable {malloc : Allocator (HmapEntry ℤ ℕ)} {react : Reaction} {q : FdPollerBase}
  {hist hist' : List Done}

lemma EpollPoller.dispatch_replays {p p' : EventPoller Reg} {e : Event} (hq : p.base.Agree q)
    (h : dispatch malloc react p hist e = .ok (p', hist')) :
    EventPoller.Replays malloc p' q hist hist' := by
  -- the second half of an event
  have hwrites : ∀ {p p' : EventPoller Reg} {q : FdPollerBase} {hist hist' : List Done},
      p.base.Agree q →
      (if e.ready.write then p.callback malloc react hist e.fd true else .ok (p, hist)) =
        .ok (p', hist') →
      EventPoller.Replays malloc p' q hist hist' := by
    intro p p' q hist hist' hq h
    split_ifs at h
    · exact EventPoller.callback_replays hq h
    · obtain ⟨rfl, rfl⟩ := Prod.mk.inj (Except.ok.inj h)
      exact .silent hq
  rw [dispatch] at h
  by_cases hrange : 0 ≤ e.fd ∧ e.fd < p.base.maxFds
  · rw [if_neg (not_not.mpr hrange)] at h
    by_cases hactive : (p.base.entry e.fd).status ≠ .active
    · rw [if_pos hactive] at h
      obtain ⟨⟨p₁, r⟩, hdel, h⟩ := bind_eq_ok h
      obtain ⟨rfl, rfl⟩ := Prod.mk.inj (Except.ok.inj h)
      exact EventPoller.dropEvent_replays hq hdel
    · rw [if_neg hactive] at h
      dsimp only at h
      by_cases hread : e.ready.read
      · rw [if_pos hread] at h
        obtain ⟨⟨p₁, hist₁⟩, hfirst, hwrite⟩ := bind_eq_ok h
        exact (EventPoller.callback_replays hq hfirst).then fun q' hq' => hwrites hq' hwrite
      · rw [if_neg hread] at h
        exact hwrites hq h
  · rw [if_pos hrange] at h
    cases h

lemma KqueuePoller.dispatch_replays {p p' : EventPoller Reg} {e : Event} (hq : p.base.Agree q)
    (h : dispatch malloc react p hist e = .ok (p', hist')) :
    EventPoller.Replays malloc p' q hist hist' := by
  rw [dispatch] at h
  split_ifs at h with hrange hactive
  · obtain ⟨⟨p₁, r⟩, hdel, h⟩ := bind_eq_ok h
    obtain ⟨rfl, rfl⟩ := Prod.mk.inj (Except.ok.inj h)
    exact EventPoller.dropEvent_replays hq hdel
  · exact EventPoller.callback_replays hq h

end Drivers

/-- **One poller is as good as the other.**  Every run of the poller with `epoll`, and every run of
the one with `kqueue`, with turns that serve any events and callbacks that make any calls, is a run
of the base class whose kernel accepts everything: with the same results, the same registrations
made and the same descriptors closed, in a state that differs in the masks only.  And where both
pollers are asked for the same, they show the same and end in the same state, masks aside. -/
theorem pollers_interchangeable (malloc : Allocator (HmapEntry ℤ ℕ)) (os : Libc)
    (junk : ℤ → PollerEntry) (maxn : ℕ) (timetick : ℤ) :
    (∀ p tr, EventPoller.Shows malloc (EpollPoller.doPoll malloc) os junk maxn timetick p tr →
      ∃ q, FdPollerBase.Shows malloc os junk maxn timetick q tr ∧ p.base.Agree q) ∧
    (∀ p tr, EventPoller.Shows malloc (KqueuePoller.doPoll malloc) os junk maxn timetick p tr →
      ∃ q, FdPollerBase.Shows malloc os junk maxn timetick q tr ∧ p.base.Agree q) ∧
    ∀ p p' tr tr',
      EventPoller.Shows malloc (EpollPoller.doPoll malloc) os junk maxn timetick p tr →
      EventPoller.Shows malloc (KqueuePoller.doPoll malloc) os junk maxn timetick p' tr' →
      tr.map Seen.asked = tr'.map Seen.asked → tr = tr' ∧ p.base.Agree p'.base := by
  have hepoll : ∀ p tr,
      EventPoller.Shows malloc (EpollPoller.doPoll malloc) os junk maxn timetick p tr →
      ∃ q, FdPollerBase.Shows malloc os junk maxn timetick q tr ∧ p.base.Agree q :=
    fun p tr h => h.refines fun hq hpoll => EventPoller.poll_replays
      (fun hq h => EpollPoller.dispatch_replays hq h) hq hpoll
  have hkqueue : ∀ p tr,
      EventPoller.Shows malloc (KqueuePoller.doPoll malloc) os junk maxn timetick p tr →
      ∃ q, FdPollerBase.Shows malloc os junk maxn timetick q tr ∧ p.base.Agree q :=
    fun p tr h => h.refines fun hq hpoll => EventPoller.poll_replays
      (fun hq h => KqueuePoller.dispatch_replays hq h) hq hpoll
  refine ⟨hepoll, hkqueue, fun p p' tr tr' h h' hasked => ?_⟩
  obtain ⟨q, hshows, hq⟩ := hepoll p tr h
  obtain ⟨q', hshows', hq'⟩ := hkqueue p' tr' h'
  obtain ⟨rfl, rfl⟩ := hshows.unique hshows' hasked
  exact ⟨rfl, hq.trans hq'.symm⟩

/-- A reactor that gives its descriptor up. -/
def giveUp : Reaction := fun _ cb => [.waitClose cb.fd, .closeFd cb.fd]

/-- A descriptor is added, and given up when it is readable. -/
theorem pollers_interchangeable_turn : ∃ p p' tr,
    EventPoller.Shows (Allocator.above _ 1) (EpollPoller.doPoll (Allocator.above _ 1)) zeroLibc
      (fun _ => ⟨0, .empty, none⟩) 4 100 p tr ∧
    EventPoller.Shows (Allocator.above _ 1) (KqueuePoller.doPoll (Allocator.above _ 1)) zeroLibc
      (fun _ => ⟨0, .empty, none⟩) 4 100 p' tr ∧
    tr.map Seen.asked = [.inr [.waitClose 2, .closeFd 2], .inl (.addFd 2 7)] ∧
    p.base.Agree p'.base := by
  have h₀ : EventPoller.Shows (Allocator.above _ 1) (EpollPoller.doPoll (Allocator.above _ 1))
      zeroLibc (fun _ => ⟨0, .empty, none⟩) 4 100 _ [] := .new rfl
  have h₁ := h₀.call (c := .addFd 2 7) rfl
  have h₂ := h₁.turn (show EventPoller.requests _ _ [] = _ from rfl)
    (show EpollPoller.doPoll (Allocator.above _ 1) giveUp _ (some [⟨2, ⟨true, false⟩⟩]) = _
      from rfl)
    rfl
  have h₀' : EventPoller.Shows (Allocator.above _ 1) (KqueuePoller.doPoll (Allocator.above _ 1))
      zeroLibc (fun _ => ⟨0, .empty, none⟩) 4 100 _ [] := .new rfl
  have h₁' := h₀'.call (c := .addFd 2 7) rfl
  have h₂' := h₁'.turn (show EventPoller.requests _ _ [] = _ from rfl)
    (show KqueuePoller.doPoll (Allocator.above _ 1) giveUp _ (some [⟨2, false⟩]) = _ from rfl) rfl
  obtain ⟨heq, hagree⟩ := (pollers_interchangeable _ _ _ _ _).2.2 _ _ _ _ h₂ h₂' rfl
  exact ⟨_, _, _, h₂, heq ▸ h₂', rfl, hagree⟩

end Axon
