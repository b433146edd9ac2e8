import Axon.Core.TimerRuns

/-!
# Handles that come round

Runs of any length: the handle of a new timer may be one that was given out before, and `entry_map_`
takes a key a second time without a word.

* **`EvTimer.Admits`**, **`EvTimer.Reached`** : the runs in which no handle comes round to a timer
  that is still pending.
* **`EvTimer.observes_lives`** : the lives of the timers can be recorded of them.
* **`EvTimer.Handled`**, **`EvTimer.handles_distinct`** : in these runs handles tell the timers
  apart, and the next handle clashes exactly when it has come round.
* **`EvTimer.handles_clash`** : a long timer, and `2 ^ 31 - 2` short ones after it.
-/

namespace Axon

open Library

namespace EvTimer

/-- The calls considered, after what has been observed: memory is as it should be, the expiry tick
of a new timer is below the upper limit, and its handle does not clash. -/
def Admits (tr : List TimerEvent) (t : EvTimer) : TimerCall → Prop
  | .add mem _ _ timeout =>
      Outside mem t ∧ expiry t.tickInterval t.ticknow timeout < 2 ^ 30 ∧ Unclashed tr
  | .del _ => True

/-- **The runs** from a new timer on, with callbacks that spare what `process_tick` points to. -/
def Reached (os : Libc) (buf tickInterval : ℕ) (t : EvTimer) (tr : List TimerEvent) : Prop :=
  ∃ t₀, EvTimer.new os buf tickInterval = .ok t₀ ∧ Leads Admits Spares t₀ [] t tr

/-- **Handles tell the timers apart**: of the pending timers `pend` each has a handle of its own,
and is the one its handle was returned for last; what else a handle was returned for is over.  The
next `add_timer` returns the handle of none of them exactly when there is no clash, and `del_timer`
takes out the timer of its handle and no other. -/
structure Handled (tickInterval : ℕ) (t : EvTimer) (tr : List TimerEvent)
    (B : ℕ × ℕ → List ℕ) (pend : List PTimer) : Prop where
  agrees : Agrees t B pend
  distinct : (pend.map PTimer.handle).Nodup
  pending : ∀ p ∈ pend, ∃ past n timeout, Past True tickInterval t.ticknow p.handle past ∧
    p.tick = expiry tickInterval n timeout ∧
    history p.handle tr = past ++ [.added n timeout p.handle p.cbfunc p.data]
  ended : ∀ h, h ∉ pend.map PTimer.handle → Past True tickInterval t.ticknow h (history h tr)
  add : ∀ mem cbfunc data timeout, Outside mem t → expiry tickInterval t.ticknow timeout < 2 ^ 30 →
    ∃ t' h, t.addTimer mem cbfunc data timeout = .ok (t', h) ∧
      (h ∉ pend.map PTimer.handle ↔ Unclashed tr)
  del : ∀ p ∈ pend, ∃ t', t.delTimer p.handle = .ok (t', 0) ∧
    Agrees t' (fun j => (B j).erase p.addr) (pend.filter fun q => q.handle ≠ p.handle)
  del_none : ∀ h, h ∉ pend.map PTimer.handle → t.delTimer h = .ok (t, -1)

section Reached

variable {late : Prop} {os : Libc} {buf tickInterval : ℕ} {t : EvTimer} {tr : List TimerEvent}
  {B : ℕ × ℕ → List ℕ} {pend : List PTimer}

/-- **The lives of timers can be recorded** of these runs. -/
lemma observes_lives : Observes Admits late tickInterval (Lives late tickInterval) where
  admits hI hl haccept := ⟨haccept.1, hI ▸ haccept.2.1, hl.fresh_iff.mpr haccept.2.2⟩
  add _ hl haccept ha := hl.add haccept.2.2 ha
  del_none hl h := hl.del_none h
  del hl hp hlate hran := hl.del hp hlate hran
  fire hl hp hnot hhandle haddr := hl.fire hp hnot hhandle haddr
  free hl hsub hnodup hran hrest := hl.free hsub hnodup hran hrest
  mono hl hle := hl.mono hle

lemma Reached.new (hnew : EvTimer.new os buf tickInterval = .ok t) :
    Reached os buf tickInterval t [] := ⟨t, hnew, .refl⟩

lemma Reached.call {t' : EvTimer} {evs : List TimerEvent} {c : TimerCall}
    (hr : Reached os buf tickInterval t tr) (haccept : Admits tr t c)
    (hcall : t.call c = .ok (t', evs)) : Reached os buf tickInterval t' (tr ++ evs) := by
  obtain ⟨t₀, hnew, hleads⟩ := hr
  exact ⟨t₀, hnew, hleads.call haccept hcall⟩

lemma Reached.tick {t' : EvTimer} {evs : List TimerEvent} {env : ℕ → List TimerCall}
    (hr : Reached os buf tickInterval t tr) (hfits : TickFits Admits Spares tr t env)
    (htick : t.processTick env = .ok (t', evs)) : Reached os buf tickInterval t' (tr ++ evs) := by
  obtain ⟨t₀, hnew, hleads⟩ := hr
  exact ⟨t₀, hnew, hleads.tick env hfits htick⟩

lemma Reached.inv (hos : os.Total) (hinterval : 0 < tickInterval)
    (hr : Reached os buf tickInterval t tr) :
    ∃ B pend, Inv tickInterval (Lives True tickInterval) t B pend [] [] tr := by
  obtain ⟨t₀, hnew, hleads⟩ := hr
  obtain ⟨t₁, hnew₁, hi⟩ := @inv_new tickInterval (Lives True tickInterval) os buf hos hinterval
    lives_nil
  obtain rfl := Except.ok.inj (hnew.symm.trans hnew₁)
  exact hleads.inv observes_lives spares_sparing ⟨_, _, hi⟩

/-- `add_timer` below the upper limit returns the next handle, whether it clashes or not. -/
lemma Inv.add_returns {L : Observer} (hi : Inv tickInterval L t B pend [] [] tr) {mem : TimerMem}
    (hmem : Outside mem t) (cbfunc data : Option ℕ) {timeout : ℕ}
    (hlim : expiry tickInterval t.ticknow timeout < 2 ^ 30) :
    ∃ t', t.addTimer mem cbfunc data timeout = .ok (t', nextHandle t.handle) := by
  have hinterval : 0 < t.tickInterval := hi.interval ▸ hi.pos
  rw [← hi.interval] at hlim
  obtain ⟨t', a, hrun, -⟩ :=
    hi.filed.add_stored hinterval hmem cbfunc data (storedTick_eq hinterval (by omega)) hlim
  exact ⟨t', hrun⟩

lemma Inv.handled (hi : Inv tickInterval (Lives True tickInterval) t B pend [] [] tr) :
    Handled tickInterval t tr B pend where
  agrees := hi.filed.agrees
  distinct := hi.filed.books.handle_nodup
  pending p hp := by
    obtain ⟨past, n, timeout, hpast, htick, hhist⟩ := hi.record.pending p hp
    rw [if_neg List.not_mem_nil] at hhist
    exact ⟨past, n, timeout, hpast, htick, hhist⟩
  ended := hi.record.settled
  add mem cbfunc data timeout hmem hlim := by
    obtain ⟨t', hrun⟩ := hi.add_returns hmem cbfunc data hlim
    exact ⟨t', _, hrun, hi.record.fresh_iff⟩
  del p hp := by
    obtain ⟨t', hrun, -, -, hf⟩ := hi.filed.del hp
    exact ⟨t', hrun, hf.agrees⟩
  del_none _ hnot := hi.filed.del_none hnot

/-- **Live handles are distinct** in every run, of any length, in which no handle comes round to a
timer that is still pending; and no call and no tick of it fails. -/
theorem handles_distinct (hos : os.Total) (hinterval : 0 < tickInterval)
    (hr : Reached os buf tickInterval t tr) :
    (∃ B pend, Handled tickInterval t tr B pend) ∧
    (∀ c, Admits tr t c → ∃ t' evs, t.call c = .ok (t', evs)) ∧
    ∀ env, TickFits Admits Spares tr t env → t.ticknow + 1 < 2 ^ 30 →
      ∃ t' evs, t.processTick env = .ok (t', evs) ∧ t'.ticknow = t.ticknow + 1 := by
  obtain ⟨B, pend, hi⟩ := hr.inv hos hinterval
  exact ⟨⟨B, pend, hi.handled⟩, hi.progress observes_lives spares_sparing⟩

/-- One timer has been added and cancelled, and another one is pending. -/
theorem handles_distinct_second :
    ∃ t tr B pend, Reached zeroLibc 4096 1000 t tr ∧ Handled 1000 t tr B pend ∧
      history 1 tr = [.added 0 0 1 none none, .deleted 1 0] := by
  have h₀ : Reached zeroLibc 4096 1000 _ _ := .new rfl
  have h₁ : Reached zeroLibc 4096 1000 _ _ := h₀.call (c := .add plainMem none none 0)
    ⟨plainMem_outside (by decide), by decide, fun x hx => absurd hx List.not_mem_nil⟩
    (show EvTimer.call _ _ = .ok (_, _) from rfl)
  have h₂ : Reached zeroLibc 4096 1000 _ _ := h₁.call (c := .del 1) trivial
    (show EvTimer.call _ _ = .ok (_, _) from rfl)
  have h₃ : Reached zeroLibc 4096 1000 _ _ := h₂.call (c := .add plainMem none none 5000)
    ⟨plainMem_outside (by decide), by decide, fun x hx => absurd hx List.not_mem_nil⟩
    (show EvTimer.call _ _ = .ok (_, _) from rfl)
  obtain ⟨⟨B, pend, hhandled⟩, -⟩ := handles_distinct zeroLibc_total (by decide) h₃
  exact ⟨_, _, B, pend, h₃, hhandled, by decide⟩

/-- A timer that is pending, and `n` more that were cancelled at once. -/
lemma reached_adds {n : ℕ} (hn : n < 2 ^ 31 - 1) :
    ∃ t tr, Reached zeroLibc 4096 1000 t tr ∧ adds tr = n + 1 ∧ pendingAdds tr = [(1, 1)] ∧
      t.ticknow = 0 ∧ t.entryPool.bufEnd < 500000 := by
  induction n with
  | zero =>
      have h₀ : Reached zeroLibc 4096 1000 _ _ := .new rfl
      have h₁ : Reached zeroLibc 4096 1000 _ _ := h₀.call (c := .add plainMem none none 1000000)
        ⟨plainMem_outside (by decide), by decide, fun x hx => absurd hx List.not_mem_nil⟩
        (show EvTimer.call _ _ = .ok (_, _) from rfl)
      exact ⟨_, _, h₁, rfl, rfl, rfl, by decide⟩
  | succ n ih =>
      obtain ⟨t, tr, hr, hadds, hpend, hnow, hend⟩ := ih (by omega)
      obtain ⟨B, pend, hi⟩ := hr.inv zeroLibc_total (by decide)
      have hfree : Unclashed tr := by
        rw [Unclashed, hpend, hadds]
        intro x hx hdvd
        obtain rfl := List.mem_singleton.mp hx
        have := Nat.le_of_dvd (by omega) hdvd
        omega
      have haccept : Admits tr t (.add plainMem none none 0) := by
        refine ⟨plainMem_outside hend, ?_, hfree⟩
        rw [hnow, hi.interval]
        decide
      obtain ⟨t₁, B₁, a, hrun₁, hsame₁, -, hi₁⟩ := hi.add observes_lives haccept
      obtain ⟨t₂, hrun₂, hsame₂, -⟩ := hi₁.filed.del List.mem_cons_self
      have hcall₁ : t.call (.add plainMem none none 0) =
          .ok (t₁, [.added t.ticknow 0 (nextHandle t.handle) none none]) := by
        rw [EvTimer.call, hrun₁]
        rfl
      have hcall₂ : t₁.call (.del (nextHandle t.handle)) =
          .ok (t₂, [.deleted (nextHandle t.handle) 0]) := by
        rw [EvTimer.call, hrun₂]
        rfl
      have hother : (1 : ℤ) ≠ nextHandle t.handle := fun he => by
        refine hi.record.fresh_iff.mpr hfree ?_
        rw [← he, ← hi.record.named, hpend]
        exact List.mem_singleton_self 1
      have hr₂ := (hr.call haccept hcall₁).call (c := .del (nextHandle t.handle)) trivial hcall₂
      refine ⟨t₂, _, hr₂, ?_, ?_, ?_, ?_⟩
      · rw [adds, serials_deleted, adds_added, hadds]
      · rw [pendingAdds, serials_deleted, pendingAdds_added, hpend]
        simp [hother]
      · rw [hsame₂.ticknow, hsame₁.ticknow, hnow]
      · rw [hsame₂.bufEnd, hsame₁.bufEnd]
        exact hend

/-- **Handles come round** to a timer that is still pending: after it and `2 ^ 31 - 2` more, the
next `add_timer` returns its handle. -/
theorem handles_clash :
    ∃ t tr B pend t', Reached zeroLibc 4096 1000 t tr ∧ Agrees t B pend ∧
      1 ∈ pend.map PTimer.handle ∧ t.addTimer plainMem none none 0 = .ok (t', 1) := by
  obtain ⟨t, tr, hr, hadds, hpend, hnow, hend⟩ :=
    @reached_adds (2 ^ 31 - 2) (Nat.sub_lt_sub_left (by decide) (by decide))
  obtain ⟨B, pend, hi⟩ := hr.inv zeroLibc_total (by decide)
  have hlim : expiry 1000 t.ticknow 0 < 2 ^ 30 := by
    rw [hnow]
    decide
  obtain ⟨t', hrun⟩ := hi.add_returns (plainMem_outside hend) none none hlim
  have hnext : nextHandle t.handle = 1 := by
    rw [hi.record.nextHandle_eq, hadds, handleOf_succ]
    omega
  refine ⟨t, tr, B, pend, t', hr, hi.filed.agrees, ?_, hnext ▸ hrun⟩
  rw [← hi.record.named, hpend]
  exact List.mem_singleton_self 1

end Reached

end EvTimer

end Axon
