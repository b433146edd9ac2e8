import Axon.Core.FdPollerDeferred

/-!
# Closing the retired descriptors

`close_fd` only notes the descriptor in `retired_`; the turn of the loop closes what has been noted
when `do_poll` has returned, so that the operating system does not give the number out again while
events for the old descriptor are still being dispatched.

* **`FdPollerBase.Turnable`** : what a poller keeps in every run, and what makes its turns return.
* **`FdPollerBase.Turn`** : a turn that is over: what had been handed to `close_fd` for it, and what
  it passed to `::close`.
* **`FdPollerBase.Turn.ClosedOnce`** : each of the former was closed once, and nothing else was.
* **`FdPollerBase.closed_once_iff`** : the turns that do so are the ones that have nothing to close.
  `process` resets the entry, and then closes the descriptor only if its entry is not empty.
-/

namespace Axon

open Library

namespace FdPollerBase

/-- `pending_new_` is a well-formed table of descriptors in range. -/
def PendingSound (p : FdPollerBase) : Prop :=
  ∃ l b, HmapT.Stores p.pendingNew l b ∧ ∀ c ∈ l, p.InRange c.key

/-- **What a turn relies on**: `pending_new_` can be walked, and the descriptors in it and in
`retired_` have an entry. -/
structure Turnable (p : FdPollerBase) : Prop where
  pending : p.PendingSound
  retired : ∀ i < p.retiredSz, p.InRange (p.retired i)

namespace Turnable

variable {p p' : FdPollerBase}

lemma setEntry (h : p.Turnable) (fd : ℤ) (f : PollerEntry → PollerEntry) :
    (p.setEntry fd f).Turnable :=
  ⟨h.pending, h.retired⟩

lemma ofNew {os : Libc} {junk : ℤ → PollerEntry} {maxn : ℕ} {timetick : ℤ} (hos : os.Total)
    (hstep : FdPollerBase.new os junk maxn timetick = .ok p) : p.Turnable := by
  obtain ⟨-, -, hstep⟩ := bind_eq_ok hstep
  obtain ⟨m, hm, hstep⟩ := bind_eq_ok hstep
  obtain ⟨m', hm', -, hstores⟩ := HmapT.Stores.new (K := ℤ) (V := ℕ) hos
    (show 0 < 10 by decide) (by decide)
  obtain rfl := Except.ok.inj (hm.symm.trans hm')
  obtain rfl := Except.ok.inj hstep
  exact ⟨⟨[], _, hstores, by simp⟩, by simp⟩

lemma addFd (h : p.Turnable) {a : ℕ} {fd : ℤ} {reactor : Option ℕ} (hrange : p.InRange fd)
    (hfresh : ¬ p.pendingNew.entries.Live a) :
    ∃ p' r, p.addFd a fd reactor = .ok (p', r) ∧ p'.Turnable := by
  obtain ⟨⟨l, b, hstores, hkeys⟩, hret⟩ := h
  rw [FdPollerBase.addFd, if_neg (not_not.mpr hrange)]
  split_ifs with hempty
  · obtain ⟨m, b', hins, -, hstores'⟩ := hstores.insert hfresh fd reactor
    rw [hins]
    refine ⟨_, _, rfl, ⟨_, b', hstores', ?_⟩, hret⟩
    intro c hc
    rcases List.mem_cons.mp hc with rfl | hc
    · exact hrange
    · exact hkeys c hc
  · exact ⟨_, _, rfl, ⟨l, b, hstores, hkeys⟩, hret⟩

lemma closeFd (h : p.Turnable) {fd : ℤ} (hrange : p.InRange fd) (hroom : p.retiredSz < p.maxFds) :
    ∃ p' r, p.closeFd fd = .ok (p', r) ∧ p'.Turnable := by
  refine ⟨_, _, if_pos hroom, h.pending, ?_⟩
  intro i hlt
  show p.InRange (Function.update p.retired p.retiredSz fd i)
  rcases eq_or_ne i p.retiredSz with rfl | hne
  · rw [Function.update_self]
    exact hrange
  · rw [Function.update_of_ne hne]
    exact h.retired i (by simp only at hlt; omega)

/-- **Every valid call** returns. -/
lemma call (h : p.Turnable) {c : Call} (hv : p.Valid c) :
    ∃ p' r, p.call c = .ok (p', r) ∧ p'.Turnable := by
  cases c with
  | addFd a fd reactor => exact h.addFd hv.1 hv.2
  | setReactor fd reactor =>
      refine ⟨_, _, rfl, ?_⟩
      show (p.setReactor fd reactor).1.Turnable
      rw [FdPollerBase.setReactor]
      split_ifs
      · exact h
      · dsimp only
        exact h.setEntry fd _
      · exact h
  | waitClose fd =>
      refine ⟨_, _, rfl, ?_⟩
      show (p.waitClose fd).1.Turnable
      rw [FdPollerBase.waitClose]
      split_ifs
      · exact h
      · dsimp only
        exact (h.setEntry fd _).setEntry fd _
      · exact h
  | closeFd fd => exact h.closeFd hv.1 hv.2
  | dropEvent fd =>
      refine ⟨_, _, rfl, ?_⟩
      split_ifs
      · exact h.setEntry fd _
      · exact h

/-- **The end of a turn** returns, and closes nothing. -/
lemma finish (h : p.Turnable) :
    ∃ p' log, p.finish = .ok (p', log) ∧ p'.Turnable ∧ log.closed = [] := by
  obtain ⟨⟨l, b, hstores, hkeys⟩, hret⟩ := h
  obtain ⟨p₁, hfin, hpend, hmax, -⟩ := finish_eq hstores hkeys hret
  obtain ⟨hpend', hmax', hsz⟩ := installAll_frame l { p₁ with retiredSz := 0 }
  refine ⟨_, _, hfin, ⟨⟨l, b, ?_, ?_⟩, ?_⟩, rfl⟩
  · rw [hpend', show ({ p₁ with retiredSz := 0 } : FdPollerBase).pendingNew = _ from hpend]
    exact hstores
  · intro c hc
    rw [InRange, hmax', show ({ p₁ with retiredSz := 0 } : FdPollerBase).maxFds = _ from hmax]
    exact hkeys c hc
  · intro i hlt
    rw [hsz] at hlt
    exact absurd hlt (Nat.not_lt_zero i)

/-- **A turn** whose callbacks make valid calls returns, and closes nothing. -/
lemma process (h : p.Turnable) {cs : List Call} (hv : p.ValidCalls cs) :
    ∃ p' log, p.process cs = .ok (p', log) ∧ p'.Turnable ∧ log.closed = [] := by
  induction cs generalizing p with
  | nil => exact h.finish
  | cons c cs ih =>
      obtain ⟨p₁, r, hok, h₁⟩ := h.call hv.1
      rw [FdPollerBase.process, hok, ok_bind]
      exact ih h₁ (hv.2 p₁ r hok)

end Turnable

/-! ## Runs -/

/-- A turn that is over. -/
structure Turn where
  /-- Handed to `close_fd` between the end of the turn before and the end of `do_poll`. -/
  handed : List ℤ
  /-- Passed to `::close`. -/
  closed : List ℤ

/-- **The turn closed what it had to**: each descriptor handed to `close_fd` once, and no other. -/
def Turn.ClosedOnce (t : Turn) : Prop :=
  ∀ fd, t.closed.count fd = if fd ∈ t.handed then 1 else 0

/-- What a call hands to `close_fd`. -/
def handedBy : Call → List ℤ
  | .closeFd fd => [fd]
  | _ => []

/-- **A run**: calls, and turns of the loop with the calls their callbacks make.  `handed` is what
waits for the end of the next turn, `turns` the turns so far. -/
inductive Retiring (maxn : ℕ) : FdPollerBase → List ℤ → List Turn → Prop
  | new {os : Libc} {junk : ℤ → PollerEntry} {timetick : ℤ} {p : FdPollerBase} (hos : os.Total)
      (hstep : FdPollerBase.new os junk maxn timetick = .ok p) : Retiring maxn p [] []
  | call {p p' : FdPollerBase} {handed : List ℤ} {turns : List Turn} {c : Call} {r : ℤ}
      (hrun : Retiring maxn p handed turns) (hv : p.Valid c) (hstep : p.call c = .ok (p', r)) :
      Retiring maxn p' (handed ++ handedBy c) turns
  | process {p p' : FdPollerBase} {handed : List ℤ} {turns : List Turn} {cs : List Call}
      {log : PollerLog} (hrun : Retiring maxn p handed turns) (hv : p.ValidCalls cs)
      (hstep : p.process cs = .ok (p', log)) :
      Retiring maxn p' [] (turns ++ [⟨handed ++ cs.flatMap handedBy, log.closed⟩])

variable {p : FdPollerBase} {handed : List ℤ} {turns : List Turn}

/-- A turn that closes nothing does what it has to if there is nothing to do. -/
lemma Turn.closedOnce_iff {t : Turn} (h : t.closed = []) : t.ClosedOnce ↔ t.handed = [] := by
  rw [Turn.ClosedOnce, h, List.eq_nil_iff_forall_not_mem]
  simp only [List.count_nil]
  refine forall_congr' fun fd => ?_
  split_ifs with hmem <;> simp [hmem]

lemma Retiring.turnable {maxn : ℕ} (hrun : Retiring maxn p handed turns) :
    p.Turnable ∧ ∀ t ∈ turns, t.closed = [] := by
  induction hrun with
  | new hos hstep => exact ⟨.ofNew hos hstep, by simp⟩
  | call _ hv hstep ih =>
      obtain ⟨p₁, r₁, hok, h⟩ := ih.1.call hv
      obtain ⟨rfl, -⟩ := Prod.mk.inj (Except.ok.inj (hok.symm.trans hstep))
      exact ⟨h, ih.2⟩
  | process _ hv hstep ih =>
      obtain ⟨p₁, log₁, hok, h, hclosed⟩ := ih.1.process hv
      obtain ⟨rfl, rfl⟩ := Prod.mk.inj (Except.ok.inj (hok.symm.trans hstep))
      refine ⟨h, ?_⟩
      intro t ht
      rcases List.mem_append.mp ht with ht | ht
      · exact ih.2 t ht
      · rw [List.mem_singleton.mp ht]
        exact hclosed

/-- **When the retired descriptors are closed.**  In every run: the turns so far have closed what
they had to, each descriptor once and no other, if and only if nothing had been handed to `close_fd`
for any of them; and the next turn returns and does so if and only if nothing has been handed to
`close_fd` for it. -/
theorem closed_once_iff {maxn : ℕ} (hrun : Retiring maxn p handed turns) :
    ((∀ t ∈ turns, t.ClosedOnce) ↔ ∀ t ∈ turns, t.handed = []) ∧
    ∀ cs, p.ValidCalls cs → ∃ p' log, p.process cs = .ok (p', log) ∧
      (Turn.ClosedOnce ⟨handed ++ cs.flatMap handedBy, log.closed⟩ ↔
        handed ++ cs.flatMap handedBy = []) := by
  obtain ⟨hp, hturns⟩ := hrun.turnable
  constructor
  · refine forall₂_congr ?_
    intro t ht
    exact Turn.closedOnce_iff (hturns t ht)
  · intro cs hv
    obtain ⟨p', log, hok, -, hclosed⟩ := hp.process hv
    exact ⟨p', log, hok, Turn.closedOnce_iff hclosed⟩

/-- The descriptors 2 and 3 are added, and 2 is retired; the turn after the next one has nothing to
close. -/
theorem closed_once_idle : ∃ p, Retiring 4 p [] [⟨[2], []⟩] ∧ (p.entry 3).status = .active ∧
    ∃ p' log, p.process [] = .ok (p', log) ∧ Turn.ClosedOnce ⟨[], log.closed⟩ := by
  have h₀ : Retiring 4 _ [] [] := .new zeroLibc_total (show somePoller = .ok _ from rfl)
  have h₁ : Retiring 4 _ _ _ :=
    .call h₀ (c := .addFd 0 2 (some 7)) (by decide)
      (show FdPollerBase.call _ _ = .ok (_, _) from rfl)
  have h₂ : Retiring 4 _ _ _ :=
    .call h₁ (c := .addFd 1 3 (some 8)) (by decide)
      (show FdPollerBase.call _ _ = .ok (_, _) from rfl)
  have h₃ : Retiring 4 _ _ _ :=
    .call h₂ (c := .closeFd 2) (by decide) (show FdPollerBase.call _ _ = .ok (_, _) from rfl)
  have h₄ : Retiring 4 _ _ _ :=
    .process h₃ (show ValidCalls _ [] from trivial)
      (show FdPollerBase.process _ [] = .ok (_, _) from rfl)
  obtain ⟨p', log, hok, honce⟩ := (closed_once_iff h₄).2 [] trivial
  exact ⟨_, h₄, by decide, p', log, hok, honce.mpr rfl⟩

/-- The descriptor 2 is added and retired; the next turn does not close it. -/
theorem closed_once_fails : ∃ p, Retiring 4 p [] [⟨[2], []⟩] ∧ (p.entry 2).status = .empty ∧
    ¬ Turn.ClosedOnce ⟨[2], []⟩ := by
  have h₀ : Retiring 4 _ [] [] := .new zeroLibc_total (show somePoller = .ok _ from rfl)
  have h₁ : Retiring 4 _ _ _ :=
    .call h₀ (c := .addFd 0 2 (some 7)) (by decide)
      (show FdPollerBase.call _ _ = .ok (_, _) from rfl)
  have h₂ : Retiring 4 _ _ _ :=
    .call h₁ (c := .closeFd 2) (by decide) (show FdPollerBase.call _ _ = .ok (_, _) from rfl)
  have h₃ : Retiring 4 _ _ _ :=
    .process h₂ (show ValidCalls _ [] from trivial)
      (show FdPollerBase.process _ [] = .ok (_, _) from rfl)
  exact ⟨_, h₃, by decide, fun h => absurd (h 2) (by decide)⟩

end FdPollerBase

end Axon
