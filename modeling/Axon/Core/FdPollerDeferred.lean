import Axon.Core.FdPoller
import Axon.Core.HashmapStores
import Mathlib.Algebra.Order.Ring.Int

/-!
# Deferred registrations and closed descriptors

What `pending_new_` and `retired_` are for: a registration that meets an entry still in use is put
off to the end of the turn, and a descriptor that was closed stays closed until it is added again.

* **`FdPollerBase.Hist`** : what has been asked for: the registrations put off since the last turn,
  the descriptors being closed, and the ones closed.
* **`FdPollerBase.Clean`** : the turns that do what is asked.  `pending_new_` is never emptied, and
  it is walked from the newest registration to the oldest.
* **`FdPollerBase.deferred_once`** : in every run whose turns are clean, each turn applies exactly
  the registrations put off since the one before, the latest one of a descriptor is the one
  installed, and closed descriptors stay empty.
* **`FdPollerBase.deferred_once_fails`** : what happens in other runs.
-/

namespace Axon

open Library

namespace FdPollerBase

/-! ## The two loops at the end of a turn -/

section Loops

variable {p : FdPollerBase} {fd : ℤ}

lemma i32_le (n : ℕ) : i32 n ≤ n := by
  rw [i32, u32]
  split_ifs <;> omega

lemma InRange.lt_maxFds (h : p.InRange fd) : 0 ≤ fd ∧ fd < p.maxFds :=
  ⟨h.1, lt_of_lt_of_le h.2 (i32_le _)⟩

lemma setEntry_status_of_ne {f : PollerEntry → PollerEntry} {fd' : ℤ} (h : fd' ≠ fd) :
    (p.setEntry fd f).entry fd' = p.entry fd' := Function.update_of_ne h ..

/-- One retired descriptor: its entry is emptied, the others keep their status. -/
lemma retire_status (h : p.InRange fd) (fd' : ℤ) :
    (((p.delEvent fd (evRead ||| evWrite)).resetFd fd).entry fd').status =
      if fd' = fd then .empty else (p.entry fd').status := by
  have hrange : (p.delEvent fd (evRead ||| evWrite)).InRange fd := h
  rw [resetFd, if_pos hrange]
  rcases eq_or_ne fd' fd with rfl | hne
  · simp [setEntry]
  · rw [setEntry_status_of_ne hne, if_neg hne, delEvent, setEntry_status_of_ne hne]

lemma retire_frame (h : p.InRange fd) :
    ((p.delEvent fd (evRead ||| evWrite)).resetFd fd).pendingNew = p.pendingNew ∧
      ((p.delEvent fd (evRead ||| evWrite)).resetFd fd).maxFds = p.maxFds ∧
      ((p.delEvent fd (evRead ||| evWrite)).resetFd fd).retired = p.retired := by
  have hrange : (p.delEvent fd (evRead ||| evWrite)).InRange fd := h
  rw [resetFd, if_pos hrange]
  exact ⟨rfl, rfl, rfl⟩

/-- **The first loop** empties the entries of the retired descriptors.  By then their status is
`FDS_EMPTY`, so none of them is passed to `::close`. -/
lemma closeRetired_spec {n i : ℕ} (h : ∀ j, i ≤ j → j < i + n → p.InRange (p.retired j)) :
    ∃ p', closeRetired n i p = .ok (p', []) ∧ p'.pendingNew = p.pendingNew ∧
      p'.maxFds = p.maxFds ∧
      (∀ fd, (p.entry fd).status = .empty → (p'.entry fd).status = .empty) ∧
      (∀ fd, (∀ j, i ≤ j → j < i + n → p.retired j ≠ fd) →
        (p'.entry fd).status = (p.entry fd).status) ∧
      ∀ j, i ≤ j → j < i + n → (p'.entry (p.retired j)).status = .empty := by
  induction n generalizing i p with
  | zero => exact ⟨p, rfl, rfl, rfl, fun _ h => h, fun _ _ => rfl, fun j hj hlt => by omega⟩
  | succ n ih =>
      have hi : p.InRange (p.retired i) := h i le_rfl (by omega)
      obtain ⟨hpend, hmax, hret⟩ := retire_frame hi
      have hstatus := retire_status hi
      set q := (p.delEvent (p.retired i) (evRead ||| evWrite)).resetFd (p.retired i) with hq
      obtain ⟨p', hrun, hpend', hmax', hkeep, hother, hempty⟩ := ih (p := q) (i := i + 1)
        (fun j hj hlt => by
          rw [InRange, hmax, hret]
          exact h j (by omega) (by omega))
      refine ⟨p', ?_, hpend'.trans hpend, hmax'.trans hmax, ?_, ?_, ?_⟩
      · have hself : (q.entry (p.retired i)).status = .empty := by
          rw [hstatus, if_pos rfl]
        rw [closeRetired]
        dsimp only
        rw [if_pos hi.lt_maxFds, ← hq, hrun, hself]
        rfl
      · intro fd hfd
        refine hkeep fd ?_
        rw [hstatus]
        split_ifs
        · rfl
        · exact hfd
      · intro fd hfd
        rw [hother fd fun j hj hlt => by rw [hret]; exact hfd j (by omega) (by omega), hstatus,
          if_neg fun heq => hfd i le_rfl (by omega) heq.symm]
      · intro j hj hlt
        rcases eq_or_ne j i with rfl | hne
        · exact hkeep _ (by rw [hstatus, if_pos rfl])
        · have := hempty j (by omega) (by omega)
          rwa [hret] at this

/-- Registers the cells in order. -/
def installAll (p : FdPollerBase) (l : List (Cell ℤ ℕ)) : FdPollerBase :=
  l.foldl (fun p c => p.install c.key c.data) p

/-- **The second loop** registers all cells of `pending_new_`, the newest first. -/
lemma applyPending_eq {l : List (Cell ℤ ℕ)} {q : Option ℕ} {fuel : ℕ}
    (hl : Chain (HmapT.linkFields p.pendingNew.entries).next q (l.map Cell.addr))
    (hcell : ∀ c ∈ l, HmapT.contents p.pendingNew.entries c.addr = some (c.key, c.data))
    (hrange : ∀ c ∈ l, 0 ≤ c.key ∧ c.key < p.maxFds) (hfuel : l.length ≤ fuel) :
    applyPending fuel p q =
      .ok (p.installAll l, l.map fun c => (c.addr, c.key, c.data)) := by
  induction l generalizing p q fuel with
  | nil =>
      obtain rfl := hl
      rw [applyPending]
      rfl
  | cons c l ih =>
      obtain ⟨rfl, hnext⟩ := hl
      obtain ⟨e, he, hkey, hdata⟩ := HmapT.contents_eq (hcell c List.mem_cons_self)
      obtain ⟨fuel, rfl⟩ := Nat.exists_eq_succ_of_ne_zero
        (show fuel ≠ 0 from fun h0 => by simp [h0] at hfuel)
      have hrest : applyPending fuel (p.install c.key c.data) e.linkNext = .ok _ := ih
        (show Chain (HmapT.linkFields p.pendingNew.entries).next e.linkNext (l.map Cell.addr) by
          simpa [HmapT.linkFields, Heap.field, he] using hnext)
        (fun c' hc' => hcell c' (List.mem_cons_of_mem c hc'))
        (fun c' hc' => hrange c' (List.mem_cons_of_mem c hc'))
        (Nat.le_of_succ_le_succ hfuel)
      rw [applyPending, deref_eq he, ok_bind, hkey, hdata, if_pos (hrange c List.mem_cons_self)]
      dsimp only
      rw [hrest]
      rfl

lemma install_entry_self (p : FdPollerBase) (fd : ℤ) (reactor : Option ℕ) :
    ((p.install fd reactor).entry fd).status = .active ∧
      ((p.install fd reactor).entry fd).reactor = reactor := by
  simp [install, addEvent, setEntry]

lemma install_entry_of_ne {fd' : ℤ} (h : fd' ≠ fd) (reactor : Option ℕ) :
    (p.install fd reactor).entry fd' = p.entry fd' := by
  rw [install, addEvent, setEntry_status_of_ne h, setEntry_status_of_ne h]

/-- Descriptors without a registration keep their entry. -/
lemma installAll_of_notMem {l : List (Cell ℤ ℕ)} (h : fd ∉ l.map Cell.key) :
    (p.installAll l).entry fd = p.entry fd := by
  induction l generalizing p with
  | nil => rfl
  | cons c l ih =>
      simp only [List.map_cons, List.mem_cons, not_or] at h
      exact (ih h.2).trans (install_entry_of_ne h.1 _)

/-- Of several registrations of a descriptor the last one walked, the oldest, is the one left. -/
lemma installAll_of_mem {l : List (Cell ℤ ℕ)} (h : fd ∈ l.map Cell.key) :
    ((p.installAll l).entry fd).status = .active ∧
      ((p.installAll l).entry fd).reactor =
        (l.reverse.find? fun c => c.key = fd).bind Cell.data := by
  induction l generalizing p with
  | nil => simp at h
  | cons c l ih =>
      by_cases hl : fd ∈ l.map Cell.key
      · obtain ⟨hstatus, hreactor⟩ := ih (p := p.install c.key c.data) hl
        refine ⟨hstatus, hreactor.trans ?_⟩
        rw [List.reverse_cons, List.find?_append]
        cases hfind : l.reverse.find? fun c => c.key = fd with
        | some c' => rfl
        | none =>
            obtain ⟨c', hc', hk⟩ := List.mem_map.mp hl
            exact absurd (decide_eq_true hk)
              (List.find?_eq_none.mp hfind c' (List.mem_reverse.mpr hc'))
      · obtain rfl : fd = c.key := by simpa [hl] using h
        have hkeep : (p.installAll (c :: l)).entry c.key =
            (p.install c.key c.data).entry c.key := installAll_of_notMem hl
        have hnone : (l.reverse.find? fun c' => c'.key = c.key) = none :=
          List.find?_eq_none.mpr fun c' hc' hk =>
            hl (List.mem_map.mpr ⟨c', List.mem_reverse.mp hc', of_decide_eq_true hk⟩)
        rw [hkeep, List.reverse_cons, List.find?_append, hnone]
        simpa using install_entry_self p c.key c.data

/-- Registrations change nothing but entries. -/
lemma installAll_frame (l : List (Cell ℤ ℕ)) (p : FdPollerBase) :
    (p.installAll l).pendingNew = p.pendingNew ∧ (p.installAll l).maxFds = p.maxFds ∧
      (p.installAll l).retiredSz = p.retiredSz := by
  induction l generalizing p with
  | nil => exact ⟨rfl, rfl, rfl⟩
  | cons c l ih => exact ih (p.install c.key c.data)

/-- **The end of a turn** empties the entries of the retired descriptors, closes none of them, and
then makes all registrations that are in `pending_new_`. -/
lemma finish_eq {l : List (Cell ℤ ℕ)} {b : ℕ → List ℕ} (hstores : HmapT.Stores p.pendingNew l b)
    (hkeys : ∀ c ∈ l, p.InRange c.key) (hret : ∀ i < p.retiredSz, p.InRange (p.retired i)) :
    ∃ p₁ : FdPollerBase, p.finish = .ok ({ p₁ with retiredSz := 0 }.installAll l,
        { applied := l.map fun c => (c.addr, c.key, c.data), closed := [] }) ∧
      p₁.pendingNew = p.pendingNew ∧ p₁.maxFds = p.maxFds ∧
      (∀ fd, (p.entry fd).status = .empty → (p₁.entry fd).status = .empty) ∧
      (∀ fd, (∀ j < p.retiredSz, p.retired j ≠ fd) →
        (p₁.entry fd).status = (p.entry fd).status) ∧
      ∀ j < p.retiredSz, (p₁.entry (p.retired j)).status = .empty := by
  obtain ⟨p₁, hclose, hpend, hmax, hkeep, hother, hempty⟩ := closeRetired_spec (p := p)
    (n := p.retiredSz) (i := 0) (fun j _ hlt => hret j (by omega))
  refine ⟨p₁, ?_, hpend, hmax, hkeep, fun fd hfd => hother fd fun j _ hlt => hfd j (by omega),
    fun j hj => hempty j (Nat.zero_le j) (by omega)⟩
  rw [FdPollerBase.finish, hclose, ok_bind]
  dsimp only
  rw [applyPending_eq (p := { p₁ with retiredSz := 0 }) (l := l)]
  · rfl
  · rw [hpend]
    exact hstores.link.chain
  · rw [hpend]
    exact fun c hc => (hstores.mem_iff c).mp hc
  · intro c hc
    rw [hmax]
    exact (hkeys c hc).lt_maxFds
  · rw [hpend]
    exact hstores.length_le

end Loops

/-! ## What is asked for -/

/-- The calls so far, as far as registrations and closings depend on them. -/
structure Hist where
  /-- Registrations put off since the last turn ended, the latest first. -/
  waiting : List (Cell ℤ ℕ)
  /-- A turn has ended that found registrations put off. -/
  replay : Bool
  /-- Handed to `close_fd` since the last turn ended and not added since. -/
  closing : List ℤ
  /-- Closed by a turn and not added since. -/
  closed : List ℤ

namespace Hist

/-- Nothing has been asked for. -/
def start : Hist := ⟨[], false, [], []⟩

/-- A call has returned `r`. -/
def call (h : Hist) : Call → ℤ → Hist
  | .addFd a fd reactor, r =>
      { h with
        waiting := if r = axRetAgain then ⟨a, fd, reactor⟩ :: h.waiting else h.waiting
        closing := h.closing.filter (· ≠ fd)
        closed := h.closed.filter (· ≠ fd) }
  | .closeFd fd, _ => { h with closing := fd :: h.closing }
  | _, _ => h

/-- A turn has ended. -/
def finish (h : Hist) : Hist :=
  { waiting := []
    replay := h.replay || !h.waiting.isEmpty
    closing := []
    closed := h.closing ++ h.closed }

/-- The reactor of the latest registration of `fd`. -/
def latest (h : Hist) (fd : ℤ) : Option ℕ := (h.waiting.find? fun c => c.key = fd).bind Cell.data

/-- The reactor of the earliest registration of `fd`. -/
def earliest (h : Hist) (fd : ℤ) : Option ℕ :=
  (h.waiting.reverse.find? fun c => c.key = fd).bind Cell.data

end Hist

/-- **The condition** on the end of a turn: no earlier turn has found registrations put off; where
several are put off for one descriptor, the earliest and the latest have the same reactor; and none
is put off for a descriptor that was handed to `close_fd` after it. -/
structure Clean (h : Hist) : Prop where
  first : h.replay = false
  same : ∀ fd ∈ h.waiting.map Cell.key, h.earliest fd = h.latest fd
  open_ : ∀ fd ∈ h.closing, fd ∉ h.waiting.map Cell.key

/-- The calls of the program: descriptors in range, a free address for a new entry of
`pending_new_`, and at most `max_fds_` calls of `close_fd` in one turn. -/
def Valid (p : FdPollerBase) : Call → Prop
  | .addFd a fd _ => p.InRange fd ∧ ¬ p.pendingNew.entries.Live a
  | .setReactor fd _ => p.InRange fd
  | .waitClose fd => p.InRange fd
  | .closeFd fd => p.InRange fd ∧ p.retiredSz < p.maxFds
  | .dropEvent fd => p.InRange fd

instance (p : FdPollerBase) (c : Call) : Decidable (p.Valid c) :=
  match c with
  | .addFd a fd _ => inferInstanceAs (Decidable (p.InRange fd ∧ ¬ p.pendingNew.entries.Live a))
  | .setReactor fd _ => inferInstanceAs (Decidable (p.InRange fd))
  | .waitClose fd => inferInstanceAs (Decidable (p.InRange fd))
  | .closeFd fd => inferInstanceAs (Decidable (p.InRange fd ∧ p.retiredSz < p.maxFds))
  | .dropEvent fd => inferInstanceAs (Decidable (p.InRange fd))

/-- Each of the calls is valid where it is made. -/
def ValidCalls : FdPollerBase → List Call → Prop
  | _, [] => True
  | p, c :: cs => p.Valid c ∧ ∀ p' r, p.call c = .ok (p', r) → ValidCalls p' cs

/-- The history after these calls. -/
def Hist.calls : Hist → FdPollerBase → List Call → Hist
  | h, _, [] => h
  | h, p, c :: cs =>
      match p.call c with
      | .ok (p', r) => (h.call c r).calls p' cs
      | .error _ => h

/-- **A run**: calls, and turns of the loop with the calls their callbacks make.  `P` is the
condition on the history a turn finds when its callbacks have returned. -/
inductive Run (P : Hist → Prop) (maxn : ℕ) : FdPollerBase → Hist → Prop
  | new {os : Libc} {junk : ℤ → PollerEntry} {timetick : ℤ} {p : FdPollerBase} (hos : os.Total)
      (hstep : FdPollerBase.new os junk maxn timetick = .ok p) : Run P maxn p Hist.start
  | call {p p' : FdPollerBase} {h : Hist} {c : Call} {r : ℤ} (hrun : Run P maxn p h)
      (hv : p.Valid c) (hstep : p.call c = .ok (p', r)) : Run P maxn p' (h.call c r)
  | process {p p' : FdPollerBase} {h : Hist} {cs : List Call} {log : PollerLog}
      (hrun : Run P maxn p h) (hv : p.ValidCalls cs) (hP : P (h.calls p cs))
      (hstep : p.process cs = .ok (p', log)) : Run P maxn p' (h.calls p cs).finish

/-! ## The invariant -/

/-- What a run whose turns are clean keeps. -/
structure Inv (p : FdPollerBase) (h : Hist) : Prop where
  stores : ∃ stale b, HmapT.Stores p.pendingNew (h.waiting ++ stale) b ∧
    (h.replay = false → stale = [])
  waiting_range : ∀ c ∈ h.waiting, p.InRange c.key
  waiting_open : ∀ c ∈ h.waiting, c.key ∉ h.closed
  retired_range : ∀ i < p.retiredSz, p.InRange (p.retired i)
  closing_retired : ∀ fd ∈ h.closing, ∃ i < p.retiredSz, p.retired i = fd
  closed_empty : ∀ fd ∈ h.closed, (p.entry fd).status = .empty

variable {p p' : FdPollerBase} {h : Hist}

lemma inv_new {os : Libc} {junk : ℤ → PollerEntry} {maxn : ℕ} {timetick : ℤ} (hos : os.Total)
    (hstep : FdPollerBase.new os junk maxn timetick = .ok p) : Inv p Hist.start := by
  obtain ⟨-, -, hstep⟩ := bind_eq_ok hstep
  obtain ⟨m, hm, hstep⟩ := bind_eq_ok hstep
  obtain ⟨m', hm', -, hstores⟩ := HmapT.Stores.new (K := ℤ) (V := ℕ) hos
    (show 0 < 10 by decide) (by decide)
  obtain rfl := Except.ok.inj (hm.symm.trans hm')
  obtain rfl := Except.ok.inj hstep
  exact ⟨⟨[], _, hstores, fun _ => rfl⟩, by simp [Hist.start], by simp [Hist.start], by simp,
    by simp [Hist.start], by simp [Hist.start]⟩

/-- The calls that only change the entry of one descriptor, which was not empty or keeps its
status. -/
lemma Inv.setEntry (hi : Inv p h) {fd : ℤ} {f : PollerEntry → PollerEntry}
    (hf : (p.entry fd).status = .empty → (f (p.entry fd)).status = .empty) :
    Inv (p.setEntry fd f) h where
  stores := hi.stores
  waiting_range := hi.waiting_range
  waiting_open := hi.waiting_open
  retired_range := hi.retired_range
  closing_retired := hi.closing_retired
  closed_empty fd' hfd' := by
    rcases eq_or_ne fd' fd with rfl | hne
    · simpa [FdPollerBase.setEntry] using hf (hi.closed_empty fd' hfd')
    · rw [setEntry_status_of_ne hne]
      exact hi.closed_empty fd' hfd'

/-- `add_fd` registers a descriptor whose entry is empty, and puts the registration off otherwise.
-/
lemma Inv.addFd (hi : Inv p h) {a : ℕ} {fd : ℤ} {reactor : Option ℕ}
    (hv : p.Valid (.addFd a fd reactor)) :
    ∃ p' r, p.call (.addFd a fd reactor) = .ok (p', r) ∧
      Inv p' (h.call (.addFd a fd reactor) r) := by
  obtain ⟨hrange, hfresh⟩ := hv
  have hfilter : ∀ {l : List ℤ} {x : ℤ}, x ∈ l.filter (· ≠ fd) ↔ x ∈ l ∧ x ≠ fd := by
    simp
  by_cases hempty : (p.entry fd).status = .empty
  · refine ⟨p.install fd reactor, axRetOk, ?_, ?_⟩
    · rw [FdPollerBase.call, FdPollerBase.addFd, if_neg (not_not.mpr hrange),
        if_neg (not_not.mpr hempty)]
      rfl
    · refine ⟨hi.stores, hi.waiting_range, ?_, hi.retired_range, ?_, ?_⟩
      · exact fun c hc hmem => hi.waiting_open c hc (hfilter.mp hmem).1
      · exact fun x hx => hi.closing_retired x (hfilter.mp hx).1
      · intro x hx
        obtain ⟨hx, hne⟩ := hfilter.mp hx
        rw [install_entry_of_ne hne]
        exact hi.closed_empty x hx
  · obtain ⟨stale, b, hstores, hstale⟩ := hi.stores
    obtain ⟨m, b', hins, -, hstores'⟩ := hstores.insert hfresh fd reactor
    refine ⟨{ p with pendingNew := m }, axRetAgain, ?_, ?_⟩
    · rw [FdPollerBase.call, FdPollerBase.addFd, if_neg (not_not.mpr hrange), if_pos hempty, hins]
      rfl
    · refine ⟨⟨stale, b', by simpa [Hist.call] using hstores', hstale⟩, ?_, ?_,
        hi.retired_range, ?_, ?_⟩
      · intro c hc
        simp only [Hist.call, if_true, List.mem_cons] at hc
        rcases hc with rfl | hc
        · exact hrange
        · exact hi.waiting_range c hc
      · intro c hc hmem
        simp only [Hist.call, if_true, List.mem_cons] at hc
        rcases hc with rfl | hc
        · exact (hfilter.mp hmem).2 rfl
        · exact hi.waiting_open c hc (hfilter.mp hmem).1
      · exact fun x hx => hi.closing_retired x (hfilter.mp hx).1
      · exact fun x hx => hi.closed_empty x (hfilter.mp hx).1

/-- **Every valid call** returns and keeps the invariant. -/
lemma Inv.call (hi : Inv p h) {c : Call} (hv : p.Valid c) :
    ∃ p' r, p.call c = .ok (p', r) ∧ Inv p' (h.call c r) := by
  cases c with
  | addFd a fd reactor => exact hi.addFd hv
  | setReactor fd reactor =>
      refine ⟨_, _, rfl, ?_⟩
      show Inv (p.setReactor fd reactor).1 h
      rw [FdPollerBase.setReactor, if_neg (not_not.mpr (show p.InRange fd from hv))]
      split_ifs
      · exact hi
      · dsimp only
        refine Inv.setEntry hi ?_
        exact fun he => he
  | waitClose fd =>
      refine ⟨_, _, rfl, ?_⟩
      show Inv (p.waitClose fd).1 h
      rw [FdPollerBase.waitClose, if_neg (not_not.mpr (show p.InRange fd from hv))]
      by_cases hactive : (p.entry fd).status = .active
      · rw [if_neg (not_not.mpr hactive)]
        have hdel : Inv (p.delEvent fd (evRead ||| evWrite)) h := by
          refine Inv.setEntry hi ?_
          exact fun he => he
        dsimp only
        refine hdel.setEntry fun he => ?_
        have : (p.entry fd).status = .empty := by simpa [delEvent, FdPollerBase.setEntry] using he
        exact absurd (this.symm.trans hactive) (by decide)
      · rw [if_pos hactive]
        exact hi
  | closeFd fd =>
      refine ⟨_, 0, if_pos hv.2, hi.stores, hi.waiting_range, hi.waiting_open, ?_, ?_,
        hi.closed_empty⟩
      · intro i hlt
        rcases eq_or_ne i p.retiredSz with rfl | hne
        · show p.InRange (Function.update p.retired p.retiredSz fd p.retiredSz)
          rw [Function.update_self]
          exact hv.1
        · simp only [Function.update_of_ne hne]
          exact hi.retired_range i (by simp only at hlt; omega)
      · intro x hx
        rcases List.mem_cons.mp hx with rfl | hx
        · exact ⟨p.retiredSz, Nat.lt_succ_self _, Function.update_self ..⟩
        · obtain ⟨i, hlt, hret⟩ := hi.closing_retired x hx
          exact ⟨i, Nat.lt_succ_of_lt hlt, (Function.update_of_ne hlt.ne ..).trans hret⟩
  | dropEvent fd =>
      refine ⟨_, _, rfl, ?_⟩
      split_ifs
      · refine Inv.setEntry hi ?_
        exact fun he => he
      · exact hi

/-- **The end of a clean turn** applies exactly the registrations put off since the last one,
installs the latest of each descriptor, and keeps the invariant. -/
lemma Inv.finish (hi : Inv p h) (hc : Clean h) :
    ∃ p' log, p.finish = .ok (p', log) ∧ Inv p' h.finish ∧
      log.applied = h.waiting.map (fun c => (c.addr, c.key, c.data)) ∧
      ∀ fd ∈ h.waiting.map Cell.key, (p'.entry fd).status = .active ∧
        (p'.entry fd).reactor = h.latest fd := by
  obtain ⟨stale, b, hstores, hstale⟩ := hi.stores
  rw [hstale hc.first, List.append_nil] at hstores
  obtain ⟨p₁, hfin, hpend, -, hkeep, -, hempty⟩ :=
    finish_eq hstores hi.waiting_range hi.retired_range
  obtain ⟨hframe, -, hsz⟩ := installAll_frame h.waiting { p₁ with retiredSz := 0 }
  refine ⟨_, _, hfin, ?_, rfl, ?_⟩
  · refine ⟨⟨h.waiting, b, ?_, ?_⟩, by simp [Hist.finish], by simp [Hist.finish], ?_,
      by simp [Hist.finish], ?_⟩
    · rw [hframe, hpend]
      exact hstores
    · simp only [Hist.finish, hc.first, Bool.false_or, Bool.not_eq_false', List.isEmpty_iff]
      exact fun hw => hw
    · rw [hsz]
      exact fun i hlt => absurd hlt (Nat.not_lt_zero i)
    · intro fd hfd
      have hnot : fd ∉ h.waiting.map Cell.key := by
        rcases List.mem_append.mp hfd with hfd | hfd
        · exact hc.open_ fd hfd
        · intro hmem
          obtain ⟨c, hcw, rfl⟩ := List.mem_map.mp hmem
          exact hi.waiting_open c hcw hfd
      rw [installAll_of_notMem hnot]
      rcases List.mem_append.mp hfd with hfd | hfd
      · obtain ⟨i, hlt, rfl⟩ := hi.closing_retired fd hfd
        exact hempty i hlt
      · exact hkeep fd (hi.closed_empty fd hfd)
  · intro fd hfd
    rw [← hc.same fd hfd]
    exact installAll_of_mem hfd

/-- The callbacks of a turn keep the invariant. -/
lemma Inv.calls (hi : Inv p h) {cs : List Call} (hv : p.ValidCalls cs) :
    ∃ q, p.process cs = q.finish ∧ Inv q (h.calls p cs) := by
  induction cs generalizing p h with
  | nil => exact ⟨p, rfl, hi⟩
  | cons c cs ih =>
      obtain ⟨p₁, r, hok, hi₁⟩ := hi.call hv.1
      obtain ⟨q, hq, hiq⟩ := ih hi₁ (hv.2 p₁ r hok)
      refine ⟨q, ?_, ?_⟩
      · rw [FdPollerBase.process, hok, ok_bind]
        exact hq
      · rw [Hist.calls, hok]
        exact hiq

lemma Run.inv {maxn : ℕ} (hrun : Run Clean maxn p h) : Inv p h := by
  induction hrun with
  | new hos hstep => exact inv_new hos hstep
  | call _ hv hstep ih =>
      obtain ⟨p₁, r₁, hok, hi⟩ := ih.call hv
      obtain ⟨rfl, rfl⟩ := Prod.mk.inj (Except.ok.inj (hok.symm.trans hstep))
      exact hi
  | process _ hv hP hstep ih =>
      obtain ⟨q, hq, hiq⟩ := ih.calls hv
      obtain ⟨p₁, log, hok, hi, -⟩ := hiq.finish hP
      obtain ⟨rfl, -⟩ := Prod.mk.inj (Except.ok.inj (hok.symm.trans (hq.symm.trans hstep)))
      exact hi

/-- **When a deferred registration takes effect once, and closed descriptors stay closed.**  In
every run whose turns are clean: a descriptor closed by a turn is empty until it is added again; the
next turn, if it is clean, applies exactly the registrations put off since the last one, each once,
and installs the reactor of the latest one of each descriptor; and the next call returns. -/
theorem deferred_once {maxn : ℕ} (hrun : Run Clean maxn p h) :
    (∀ fd ∈ h.closed, (p.entry fd).status = .empty) ∧
    (∀ cs, p.ValidCalls cs → Clean (h.calls p cs) → ∃ p' log, p.process cs = .ok (p', log) ∧
      log.applied = (h.calls p cs).waiting.map (fun c => (c.addr, c.key, c.data)) ∧
      ∀ fd ∈ (h.calls p cs).waiting.map Cell.key, (p'.entry fd).status = .active ∧
        (p'.entry fd).reactor = (h.calls p cs).latest fd) ∧
    ∀ c, p.Valid c → ∃ p' r, p.call c = .ok (p', r) := by
  have hi := hrun.inv
  refine ⟨hi.closed_empty, fun cs hv hc => ?_, fun c hv => ?_⟩
  · obtain ⟨q, hq, hiq⟩ := hi.calls hv
    obtain ⟨p', log, hok, -, happlied, hlatest⟩ := hiq.finish hc
    exact ⟨p', log, hq.trans hok, happlied, hlatest⟩
  · obtain ⟨p', r, hok, -⟩ := hi.call hv
    exact ⟨p', r, hok⟩

/-- A poller with four descriptors; the memory of its entries held zeros. -/
def somePoller : Except Fault FdPollerBase :=
  FdPollerBase.new zeroLibc (fun _ => ⟨0, .empty, none⟩) 4 100

/-- A registration is put off while the entry of its descriptor is in use; the descriptor is closed
before it in the same turn. -/
theorem deferred_once_reused : ∃ p h, Run Clean 4 p h ∧ h.waiting = [⟨1, 2, some 8⟩] ∧
    ∃ p' log, p.process [] = .ok (p', log) ∧ log.applied = [(1, 2, some 8)] ∧
      (p'.entry 2).reactor = some 8 := by
  have h₀ : Run Clean 4 _ Hist.start := .new zeroLibc_total (show somePoller = .ok _ from rfl)
  have h₁ : Run Clean 4 _ _ :=
    .call h₀ (c := .addFd 0 2 (some 7)) (by decide)
      (show FdPollerBase.call _ _ = .ok (_, _) from rfl)
  have h₂ : Run Clean 4 _ _ :=
    .call h₁ (c := .closeFd 2) (by decide) (show FdPollerBase.call _ _ = .ok (_, _) from rfl)
  have h₃ : Run Clean 4 _ _ :=
    .call h₂ (c := .addFd 1 2 (some 8)) (by decide)
      (show FdPollerBase.call _ _ = .ok (_, _) from rfl)
  obtain ⟨p', log, hok, happlied, hlatest⟩ :=
    (deferred_once h₃).2.1 [] trivial ⟨rfl, by decide, by decide⟩
  exact ⟨_, _, h₃, by decide, p', log, hok, happlied, (hlatest 2 (by decide)).2⟩

/-- **The three defects.**  A registration applied by one turn is applied again by the next one,
which reopens a descriptor closed meanwhile; and of two registrations of a descriptor the earlier
one is installed. -/
theorem deferred_once_fails :
    (∃ p h p' log, Run (fun _ => True) 4 p h ∧ h.waiting = [] ∧ p.process [] = .ok (p', log) ∧
      log.applied = [(1, 2, some 8)]) ∧
    (∃ p h, Run (fun _ => True) 4 p h ∧ 2 ∈ h.closed ∧ (p.entry 2).status = .active) ∧
    ∃ p h p' log, Run (fun _ => True) 4 p h ∧ h.waiting = [⟨3, 2, some 9⟩, ⟨1, 2, some 8⟩] ∧
      p.process [] = .ok (p', log) ∧ (p'.entry 2).reactor = some 8 := by
  have h₀ : Run (fun _ => True) 4 _ Hist.start :=
    .new zeroLibc_total (show somePoller = .ok _ from rfl)
  have h₁ : Run (fun _ => True) 4 _ _ :=
    .call h₀ (c := .addFd 0 2 (some 7)) (by decide)
      (show FdPollerBase.call _ _ = .ok (_, _) from rfl)
  have h₂ : Run (fun _ => True) 4 _ _ :=
    .call h₁ (c := .addFd 1 2 (some 8)) (by decide)
      (show FdPollerBase.call _ _ = .ok (_, _) from rfl)
  have h₃ : Run (fun _ => True) 4 _ _ :=
    .process h₂ (show ValidCalls _ [] from trivial) trivial
      (show FdPollerBase.process _ [] = .ok (_, _) from rfl)
  refine ⟨⟨_, _, _, _, h₃, by decide, show FdPollerBase.process _ [] = .ok (_, _) from rfl,
    by decide⟩, ?_, ?_⟩
  · have h₄ : Run (fun _ => True) 4 _ _ :=
      .call h₃ (c := .closeFd 2) (by decide) (show FdPollerBase.call _ _ = .ok (_, _) from rfl)
    have h₅ : Run (fun _ => True) 4 _ _ :=
      .process h₄ (show ValidCalls _ [] from trivial) trivial
        (show FdPollerBase.process _ [] = .ok (_, _) from rfl)
    exact ⟨_, _, h₅, by decide, by decide⟩
  · have h₃' : Run (fun _ => True) 4 _ _ :=
      .call h₂ (c := .addFd 3 2 (some 9)) (by decide)
        (show FdPollerBase.call _ _ = .ok (_, _) from rfl)
    exact ⟨_, _, _, _, h₃', by decide, show FdPollerBase.process _ [] = .ok (_, _) from rfl,
      by decide⟩

end FdPollerBase

end Axon
