import Axon.Core.EventPoller

/-!
# The pollers and their base class

The model of `FdPollerBase` lets every `add_event` and `del_event` succeed; the pollers ask a kernel
that may refuse.  The base class never looks at the result, and never reads a mask: masks aside, a
poller does what the base class does, whatever its kernel.

* **`FdPollerBase.Agree`** : the same poller but for the masks of its entries.
* **`EventPoller.request_agrees`**, **`EventPoller.finish_agrees`** : the calls and the end of a
  turn agree with those of the base class, so that what is proved of it holds of both pollers.
-/

namespace Axon

open Library

/-- What the base class reads of an entry. -/
def PollerEntry.core (e : PollerEntry) : FdStatus × Option ℕ := (e.status, e.reactor)

namespace FdPollerBase

/-- **The same poller, masks aside.** -/
structure Agree (p q : FdPollerBase) : Prop where
  core : ∀ fd, (p.entry fd).core = (q.entry fd).core
  pendingNew : p.pendingNew = q.pendingNew
  retired : p.retired = q.retired
  retiredSz : p.retiredSz = q.retiredSz
  maxFds : p.maxFds = q.maxFds

namespace Agree

variable {p q : FdPollerBase} {fd : ℤ}

lemma refl (p : FdPollerBase) : Agree p p := ⟨fun _ => rfl, rfl, rfl, rfl, rfl⟩

/-- The same assignment to `entry_[fd]`, masks aside. -/
lemma setEntry (h : Agree p q) {f g : PollerEntry → PollerEntry}
    (hfg : (f (p.entry fd)).core = (g (q.entry fd)).core) :
    Agree (p.setEntry fd f) (q.setEntry fd g) where
  core fd' := by
    rcases eq_or_ne fd' fd with rfl | hne
    · simpa [FdPollerBase.setEntry] using hfg
    · rw [setEntry_status_of_ne hne, setEntry_status_of_ne hne]
      exact h.core fd'
  pendingNew := h.pendingNew
  retired := h.retired
  retiredSz := h.retiredSz
  maxFds := h.maxFds

lemma status (h : Agree p q) (fd : ℤ) : (p.entry fd).status = (q.entry fd).status :=
  congrArg Prod.fst (h.core fd)

lemma inRange_iff (h : Agree p q) : p.InRange fd ↔ q.InRange fd := by
  rw [InRange, InRange, h.maxFds]

lemma resetFd (h : Agree p q) (fd : ℤ) : Agree (p.resetFd fd) (q.resetFd fd) := by
  rw [FdPollerBase.resetFd, FdPollerBase.resetFd, if_congr h.inRange_iff rfl rfl]
  split_ifs
  · exact h.setEntry (congrArg (Prod.mk _) (congrArg Prod.snd (h.core fd)))
  · exact h

lemma setReactor (h : Agree p q) (fd : ℤ) (reactor : Option ℕ) :
    (p.setReactor fd reactor).2 = (q.setReactor fd reactor).2 ∧
      Agree (p.setReactor fd reactor).1 (q.setReactor fd reactor).1 := by
  rw [FdPollerBase.setReactor, FdPollerBase.setReactor, ← h.status fd,
    if_congr (not_congr h.inRange_iff) rfl rfl]
  split_ifs
  · exact ⟨rfl, h⟩
  · refine ⟨rfl, ?_⟩
    exact setEntry (f := fun e => { e with reactor := reactor })
      (g := fun e => { e with reactor := reactor }) h
      (congrArg (fun k => (k.1, reactor)) (h.core fd))
  · exact ⟨rfl, h⟩

lemma symm (h : Agree p q) : Agree q p :=
  ⟨fun fd => (h.core fd).symm, h.pendingNew.symm, h.retired.symm, h.retiredSz.symm, h.maxFds.symm⟩

lemma trans {r : FdPollerBase} (h : Agree p q) (h' : Agree q r) : Agree p r :=
  ⟨fun fd => (h.core fd).trans (h'.core fd), h.pendingNew.trans h'.pendingNew,
    h.retired.trans h'.retired, h.retiredSz.trans h'.retiredSz, h.maxFds.trans h'.maxFds⟩

end Agree

end FdPollerBase

/-- The call of the base class. -/
def Request.call (a : ℕ) : Request → FdPollerBase.Call
  | .addFd fd reactor => .addFd a fd (some reactor)
  | .setReactor fd reactor => .setReactor fd (some reactor)
  | .waitClose fd => .waitClose fd
  | .closeFd fd => .closeFd fd

namespace EventPoller

variable {R : Type} {p p' : EventPoller R} {q : FdPollerBase} {fd : ℤ}

/-- What a driver does to one descriptor is a change of its mask, as `add_event` of the base class.
-/
lemma agree_addEvent (h : p.base.Agree q) (fd : ℤ) (w : Watch R) (flag : ℕ) :
    (p.setWatch fd w).base.Agree (q.addEvent fd flag) :=
  FdPollerBase.Agree.setEntry (f := fun e => { e with evMask := w.evMask }) h (h.core fd)

lemma agree_delEvent (h : p.base.Agree q) (fd : ℤ) (w : Watch R) (flag : ℕ) :
    (p.setWatch fd w).base.Agree (q.delEvent fd flag) :=
  FdPollerBase.Agree.setEntry (f := fun e => { e with evMask := w.evMask }) h (h.core fd)

lemma agree_setEntry (h : p.base.Agree q) {f g : PollerEntry → PollerEntry}
    (hfg : (f (p.base.entry fd)).core = (g (q.entry fd)).core) :
    (p.setEntry fd f).base.Agree (q.setEntry fd g) :=
  FdPollerBase.Agree.setEntry h hfg

variable [Driver R]

/-- **The calls agree** with those of the base class. -/
theorem request_agrees {malloc : Allocator (HmapEntry ℤ ℕ)} {c : Request} {r : ℤ}
    (hq : p.base.Agree q) (h : p.request malloc c = .ok (p', r)) :
    ∃ q', q.call (c.call (malloc.new q.pendingNew.entries)) = .ok (q', r) ∧
      p'.base.Agree q' := by
  rw [← hq.pendingNew]
  cases c with
  | addFd fd reactor =>
      rw [request, addFd] at h
      rw [Request.call, FdPollerBase.call, FdPollerBase.addFd, ← hq.pendingNew, ← hq.status fd,
        if_congr (not_congr hq.inRange_iff.symm) rfl rfl]
      split_ifs at h ⊢
      · obtain ⟨m, hm, h⟩ := bind_eq_ok h
        obtain ⟨rfl, rfl⟩ := Prod.mk.inj (Except.ok.inj h)
        rw [hm]
        exact ⟨_, rfl, hq.core, rfl, hq.retired, hq.retiredSz, hq.maxFds⟩
      · obtain ⟨⟨p₁, r₁⟩, hadd, h⟩ := bind_eq_ok h
        obtain ⟨rfl, rfl⟩ := Prod.mk.inj (Except.ok.inj h)
        obtain ⟨w, rfl⟩ := Driver.addEvent_touches hadd
        exact ⟨_, rfl, agree_addEvent (agree_setEntry hq rfl) fd w evRead⟩
      · obtain ⟨rfl, rfl⟩ := Prod.mk.inj (Except.ok.inj h)
        exact ⟨_, rfl, hq⟩
  | setReactor fd reactor =>
      obtain ⟨rfl, rfl⟩ := Prod.mk.inj (Except.ok.inj h)
      obtain ⟨hret, hagree⟩ := hq.setReactor fd (some reactor)
      refine ⟨_, congrArg Except.ok (Prod.ext rfl hret.symm), hagree⟩
  | waitClose fd =>
      rw [request, waitClose] at h
      rw [Request.call, FdPollerBase.call, FdPollerBase.waitClose, ← hq.status fd,
        if_congr (not_congr hq.inRange_iff.symm) rfl rfl]
      split_ifs at h ⊢
      · obtain ⟨rfl, rfl⟩ := Prod.mk.inj (Except.ok.inj h)
        exact ⟨_, rfl, hq⟩
      · obtain ⟨⟨p₁, r₁⟩, hdel, h⟩ := bind_eq_ok h
        obtain ⟨rfl, rfl⟩ := Prod.mk.inj (Except.ok.inj h)
        obtain ⟨w, rfl⟩ := Driver.delEvent_touches hdel
        have hagree := agree_delEvent hq fd w (evRead ||| evWrite)
        exact ⟨_, rfl, agree_setEntry hagree rfl⟩
      · obtain ⟨rfl, rfl⟩ := Prod.mk.inj (Except.ok.inj h)
        exact ⟨_, rfl, hq⟩
  | closeFd fd =>
      obtain ⟨⟨base, r₁⟩, hclose, h⟩ := bind_eq_ok h
      obtain ⟨rfl, rfl⟩ := Prod.mk.inj (Except.ok.inj h)
      rw [FdPollerBase.closeFd] at hclose
      rw [Request.call, FdPollerBase.call, FdPollerBase.closeFd, ← hq.retiredSz, ← hq.maxFds,
        ← hq.retired]
      split_ifs at hclose ⊢
      obtain ⟨rfl, rfl⟩ := Prod.mk.inj (Except.ok.inj hclose)
      exact ⟨_, rfl, hq.core, hq.pendingNew, rfl, rfl, rfl⟩

lemma closeRetired_agrees {n i : ℕ} {closed : List ℤ} (hq : p.base.Agree q)
    (h : closeRetired n i p = .ok (p', closed)) :
    ∃ q', q.closeRetired n i = .ok (q', closed) ∧ p'.base.Agree q' := by
  induction n generalizing i p q closed with
  | zero =>
      obtain ⟨rfl, rfl⟩ := Prod.mk.inj (Except.ok.inj h)
      exact ⟨q, rfl, hq⟩
  | succ n ih =>
      rw [closeRetired] at h
      dsimp only at h
      split_ifs at h with hfd
      obtain ⟨⟨p₁, r⟩, hdel, h⟩ := bind_eq_ok h
      obtain ⟨w, rfl⟩ := Driver.delEvent_touches hdel
      obtain ⟨⟨p₂, rest⟩, hrest, h⟩ := bind_eq_ok h
      obtain ⟨rfl, rfl⟩ := Prod.mk.inj (Except.ok.inj h)
      have hreset := (agree_delEvent hq (p.base.retired i) w (evRead ||| evWrite)).resetFd
        (p.base.retired i)
      obtain ⟨q', hok, hagree⟩ := ih (p := { p.setWatch (p.base.retired i) w with
        base := (p.setWatch (p.base.retired i) w).base.resetFd (p.base.retired i) }) hreset hrest
      refine ⟨q', ?_, hagree⟩
      rw [FdPollerBase.closeRetired, ← hq.retired, ← hq.maxFds]
      dsimp only
      rw [if_pos hfd, hok, ← hreset.status]
      rfl

lemma applyPending_agrees {fuel : ℕ} {a : Option ℕ} {applied : List (ℕ × ℤ × Option ℕ)}
    (hq : p.base.Agree q) (h : applyPending fuel p a = .ok (p', applied)) :
    ∃ q', q.applyPending fuel a = .ok (q', applied) ∧ p'.base.Agree q' := by
  induction fuel generalizing p q a applied with
  | zero =>
      cases a with
      | none =>
          obtain ⟨rfl, rfl⟩ := Prod.mk.inj (Except.ok.inj h)
          exact ⟨q, rfl, hq⟩
      | some a => exact absurd h nofun
  | succ fuel ih =>
      cases a with
      | none =>
          obtain ⟨rfl, rfl⟩ := Prod.mk.inj (Except.ok.inj h)
          exact ⟨q, rfl, hq⟩
      | some a =>
          rw [applyPending] at h
          obtain ⟨e, he, h⟩ := bind_eq_ok h
          split_ifs at h with hkey
          dsimp only at h
          obtain ⟨⟨p₁, r⟩, hadd, h⟩ := bind_eq_ok h
          obtain ⟨w, rfl⟩ := Driver.addEvent_touches hadd
          obtain ⟨⟨p₂, rest⟩, hrest, h⟩ := bind_eq_ok h
          obtain ⟨rfl, rfl⟩ := Prod.mk.inj (Except.ok.inj h)
          have hset : (p.setEntry e.key fun _ =>
              { reactor := e.data, status := .active, evMask := evNull }).base.Agree
                (q.setEntry e.key fun _ =>
                  { reactor := e.data, status := .active, evMask := evNull }) :=
            agree_setEntry hq rfl
          obtain ⟨q', hok, hagree⟩ := ih (agree_addEvent hset e.key w evRead) hrest
          refine ⟨q', ?_, hagree⟩
          rw [FdPollerBase.applyPending, ← hq.pendingNew, he, ok_bind, ← hq.maxFds, if_pos hkey]
          exact (congrArg (· >>= _) hok).trans rfl

/-- **The end of a turn agrees** with that of the base class: the same registrations are made, and
the same descriptors closed. -/
theorem finish_agrees {log : PollerLog} (hq : p.base.Agree q) (h : p.finish = .ok (p', log)) :
    ∃ q', q.finish = .ok (q', log) ∧ p'.base.Agree q' := by
  obtain ⟨⟨p₁, closed⟩, hclose, h⟩ := bind_eq_ok h
  obtain ⟨⟨p₂, applied⟩, happly, h⟩ := bind_eq_ok h
  obtain ⟨rfl, rfl⟩ := Prod.mk.inj (Except.ok.inj h)
  rw [hq.retiredSz] at hclose
  obtain ⟨q₁, hclose', h₁⟩ := closeRetired_agrees hq hclose
  have hzero : ({ p₁ with base := { p₁.base with retiredSz := 0 } } : EventPoller R).base.Agree
      { q₁ with retiredSz := 0 } := ⟨h₁.core, h₁.pendingNew, h₁.retired, rfl, h₁.maxFds⟩
  obtain ⟨q₂, happly', h₂⟩ := applyPending_agrees hzero happly
  refine ⟨q₂, ?_, h₂⟩
  dsimp only at happly'
  rw [h₁.pendingNew] at happly'
  rw [FdPollerBase.finish, hclose', ok_bind]
  dsimp only
  rw [happly']
  rfl

end EventPoller

end Axon
