import Axon.Core.TimerHandles

/-!
# When timers are scheduled

`add_timer` computes the tick of a timer with 32-bit arithmetic and `which_slot` checks the upper
limit of the result.

* **`EvTimer.Scheduled`** : an entry is filed for a later tick, and is found there when its time
  has come.
* **`EvTimer.Tracks`** : a timer stays pending until it is cancelled or freed.
* **`EvTimer.schedules_iff`** : `add_timer` fails the check or schedules the timer, exactly when the
  sum did not come round.
-/

namespace Axon

open Library

namespace EvTimer

/-- **The entry at `a` is scheduled** for the tick `T`: it is the first one of the bucket of a later
tick; and in every run that follows, until its timer is given up, its time is ahead, the ticks do
not fail, and the one that takes the time to `T` finds the entry in the bucket it runs. -/
structure Scheduled (t t' : EvTimer) (tr : List TimerEvent) (h : ℤ) (a T : ℕ) : Prop where
  entry : t'.entryMap.getData h = .ok (some a)
  tick : ∃ e, t'.entries.cell a = some e ∧ e.tick = T
  later : t.ticknow < T
  filed : ∃ i, t.whichSlot T = .ok i ∧ t'.wheel i = some a
  visited : ∀ u evs, Leads Admits Spares t' tr u (tr ++ evs) → .deleted h 0 ∉ evs →
    .freed h ∉ evs → u.ticknow < T ∧
      (∀ env, TickFits Admits Spares (tr ++ evs) u env → ∃ u' evs',
        u.processTick env = .ok (u', evs') ∧ u'.ticknow = u.ticknow + 1) ∧
      (u.ticknow + 1 = T → ∃ u' l, u.advance = .ok u' ∧ u'.ticknow = T ∧
        u'.wheelAt 0 (u'.slotNow 0) = .ok l.head? ∧ Chain (nexts u'.entries) l.head? l ∧ a ∈ l)

/-- `add_timer` fails the upper limit, or schedules the timer for the tick it expires at. -/
def Schedules (t : EvTimer) (tr : List TimerEvent) (mem : TimerMem) (cbfunc data : Option ℕ)
    (timeout : ℕ) : Prop :=
  t.addTimer mem cbfunc data timeout = .error (.rtAssert "tick < 1") ∨
    ∃ t' h a, t.addTimer mem cbfunc data timeout = .ok (t', h) ∧
      Scheduled t t' (tr ++ [.added t.ticknow timeout h cbfunc data]) h a
        (expiry t.tickInterval t.ticknow timeout)

/-- **The timer `p` is followed** from the trace `tr₀` on: it is pending until it is given up. -/
def Tracks (p : PTimer) (tr₀ : List TimerEvent) (pend : List PTimer) (tr : List TimerEvent) :
    Prop :=
  ∃ evs, tr = tr₀ ++ evs ∧ (.deleted p.handle 0 ∉ evs → .freed p.handle ∉ evs → p ∈ pend)

section Tracks

variable {late : Prop} {tickInterval : ℕ} {p : PTimer} {tr₀ tr evs : List TimerEvent}
  {pend pend' : List PTimer}

/-- More has been observed. -/
lemma Tracks.append (h : Tracks p tr₀ pend tr)
    (hkeep : .deleted p.handle 0 ∉ evs → .freed p.handle ∉ evs → p ∈ pend → p ∈ pend') :
    Tracks p tr₀ pend' (tr ++ evs) := by
  obtain ⟨evs₀, rfl, hp⟩ := h
  refine ⟨evs₀ ++ evs, List.append_assoc .., fun hdel hfreed => ?_⟩
  rw [List.mem_append, not_or] at hdel hfreed
  exact hkeep hdel.2 hfreed.2 (hp hdel.1 hfreed.1)

/-- **A timer can be followed**, beside its life. -/
lemma observes_tracks (p : PTimer) (tr₀ : List TimerEvent) :
    Observes Admits late tickInterval fun now k pend ran tr =>
      Lives late tickInterval now k pend ran tr ∧ Tracks p tr₀ pend tr where
  admits hI hl haccept := observes_lives.admits hI hl.1 haccept
  add hI hl haccept ha :=
    ⟨observes_lives.add hI hl.1 haccept ha,
      hl.2.append fun _ _ hp => List.mem_cons_of_mem _ hp⟩
  del_none hl h := ⟨hl.1.del_none h, hl.2.append fun _ _ hp => hp⟩
  del hl hq hlate hran := by
    refine ⟨hl.1.del hq hlate hran, hl.2.append fun hdel _ hp => ?_⟩
    refine List.mem_filter.mpr ⟨hp, decide_eq_true fun he => hdel ?_⟩
    rw [he]
    exact List.mem_singleton_self _
  fire hl hq hnot hhandle haddr :=
    ⟨hl.1.fire hq hnot hhandle haddr, hl.2.append fun _ _ hp => hp⟩
  free hl hsub hnodup hran hrest := by
    refine ⟨hl.1.free hsub hnodup hran hrest, hl.2.append fun _ hfreed hp => ?_⟩
    refine mem_without.mpr ⟨hp, fun hmem => hfreed ?_⟩
    obtain ⟨q, hq, heq⟩ := List.mem_map.mp hmem
    exact List.mem_map.mpr ⟨q, hq, by rw [heq]⟩
  mono hl hle := ⟨hl.1.mono hle, hl.2⟩

end Tracks

section Schedule

variable {os : Libc} {buf tickInterval timeout : ℕ} {t t' : EvTimer} {tr : List TimerEvent}
  {B : ℕ × ℕ → List ℕ} {pend : List PTimer} {p : PTimer} {mem : TimerMem} {cbfunc data : Option ℕ}

/-- **A pending timer is found** when its time has come. -/
lemma Inv.visited (hi : Inv tickInterval (Lives True tickInterval) t B pend [] [] tr)
    (hp : p ∈ pend) {u : EvTimer} {evs : List TimerEvent}
    (hleads : Leads Admits Spares t tr u (tr ++ evs)) (hdel : .deleted p.handle 0 ∉ evs)
    (hfreed : .freed p.handle ∉ evs) :
    u.ticknow < p.tick ∧
      (∀ env, TickFits Admits Spares (tr ++ evs) u env → ∃ u' evs',
        u.processTick env = .ok (u', evs') ∧ u'.ticknow = u.ticknow + 1) ∧
      (u.ticknow + 1 = p.tick → ∃ u' l, u.advance = .ok u' ∧ u'.ticknow = p.tick ∧
        u'.wheelAt 0 (u'.slotNow 0) = .ok l.head? ∧ Chain (nexts u'.entries) l.head? l ∧
        p.addr ∈ l) := by
  have htracks : Tracks p tr pend tr := ⟨[], (List.append_nil tr).symm, fun _ _ => hp⟩
  obtain ⟨B', pend', hi'⟩ := hleads.inv (observes_tracks p tr) spares_sparing
    ⟨B, pend, { hi with record := ⟨hi.record, htracks⟩ }⟩
  have hp' : p ∈ pend' := by
    obtain ⟨evs', heq, hpend⟩ := hi'.record.2
    obtain rfl := List.append_cancel_left heq
    exact hpend hdel hfreed
  have hahead := hi'.ahead p hp'
  have hlimit := hi'.filed.limit p hp'
  refine ⟨hahead, fun env hfits => ?_, fun hnow => ?_⟩
  · exact (hi'.progress (observes_tracks p tr) spares_sparing).2 env hfits (by omega)
  · obtain ⟨u', B'', l, hadv, hnow', hhead, hi''⟩ :=
      hi'.advance (observes_tracks p tr) (by omega)
    have hchain := hi''.filed.chains.chain (due u'.ticknow)
    rw [hi''.bucket, List.nil_append] at hchain
    refine ⟨u', l, hadv, hnow'.trans hnow, hhead, hchain.head_eq ▸ hchain, ?_⟩
    exact (hi''.mem_bucket hp').mpr (hnow'.trans hnow).symm

/-- Without coming round the sum is the expiry tick. -/
lemma storedTick_of_fits (hinterval : 0 < t.tickInterval) (hnow : t.ticknow < 2 ^ 30)
    (htimeout : timeout < 2 ^ 32) (hfits : t.tickInterval ≠ 1 ∨ t.ticknow + timeout < 2 ^ 32) :
    t.storedTick timeout = expiry t.tickInterval t.ticknow timeout := by
  refine storedTick_eq hinterval ?_
  rw [expiry]
  rcases eq_or_ne t.tickInterval 1 with hone | hne
  · rw [hone, Nat.div_one]
    omega
  · have htwo : 2 ≤ t.tickInterval := by omega
    have hdiv : timeout / t.tickInterval ≤ timeout / 2 := Nat.div_le_div_left htwo (by decide)
    omega

/-- When it comes round the tick is in the past. -/
lemma storedTick_wrapped (hone : t.tickInterval = 1) (hnow : t.ticknow < 2 ^ 30)
    (htimeout : timeout < 2 ^ 32) (hwrap : 2 ^ 32 ≤ t.ticknow + timeout) :
    t.storedTick timeout = t.ticknow + timeout - 2 ^ 32 := by
  rw [storedTick, hone, if_pos (by omega), Nat.div_one, u32]
  omega

/-- **The timer is scheduled** when the sum does not come round. -/
lemma Inv.schedules (hi : Inv tickInterval (Lives True tickInterval) t B pend [] [] tr)
    (hmem : Outside mem t) (hfree : Unclashed tr)
    (hstored : t.storedTick timeout = expiry t.tickInterval t.ticknow timeout) :
    Schedules t tr mem cbfunc data timeout := by
  have hinterval : 0 < t.tickInterval := hi.interval ▸ hi.pos
  by_cases hlim : expiry t.tickInterval t.ticknow timeout < 2 ^ 30
  · obtain ⟨t', B', a, hrun, hsame, hB, hi'⟩ :=
      hi.add observes_lives (show Admits tr t (.add mem cbfunc data timeout) from
        ⟨hmem, hlim, hfree⟩)
    rw [← hi.interval] at hB hi'
    refine Or.inr ⟨t', _, a, hrun, ?_, ?_, ?_, ⟨_, whichSlot_eq hlim, ?_⟩, ?_⟩
    · rw [hi'.filed.books.getData]
      simp
    · obtain ⟨nx, hcell, -⟩ := hi'.filed.books.entry List.mem_cons_self
      exact ⟨_, hcell, rfl⟩
    · rw [expiry]
      omega
    · rw [(hi'.filed.chains.chain _).head_eq, hB]
      rfl
    · intro u evs hleads hdel hfreed
      exact hi'.visited List.mem_cons_self hleads hdel hfreed
  · exact Or.inl (hi.filed.add_beyond hinterval hmem cbfunc data (by omega))

/-- **It is not** when the tick stored is another one, below the upper limit. -/
lemma Inv.not_schedules (hi : Inv tickInterval (Lives True tickInterval) t B pend [] [] tr)
    (hmem : Outside mem t) (hfree : Unclashed tr) (hlim : t.storedTick timeout < 2 ^ 30)
    (hstored : t.storedTick timeout ≠ expiry t.tickInterval t.ticknow timeout) :
    ¬ Schedules t tr mem cbfunc data timeout := by
  have hinterval : 0 < t.tickInterval := hi.interval ▸ hi.pos
  obtain ⟨t', a, hrun, -, -, -, hf⟩ := hi.filed.add_stored hinterval hmem cbfunc data rfl hlim
  have hf' := hf (hi.record.fresh_iff.mpr hfree)
  rintro (herror | ⟨t₁, h, a₁, hrun₁, hsched⟩)
  · rw [hrun] at herror
    cases herror
  · obtain ⟨rfl, rfl⟩ := Prod.mk.inj (Except.ok.inj (hrun.symm.trans hrun₁))
    have hget := hsched.entry
    rw [hf'.books.getData] at hget
    simp only [List.find?_cons, decide_true, Option.map_some, Except.ok.injEq,
      Option.some.injEq] at hget
    obtain ⟨e, hcell, htick⟩ := hsched.tick
    obtain ⟨nx, hcell', -⟩ := hf'.books.entry List.mem_cons_self
    rw [← hget] at hcell
    obtain rfl := Option.some.inj (hcell'.symm.trans hcell)
    exact hstored htick

/-- **No timeout is scheduled in the past**: in every state of every run, `add_timer` fails the
upper limit or schedules the timer exactly when the tick interval is not 1 or the sum of the time
and the timeout fits. -/
theorem schedules_iff (hos : os.Total) (hinterval : 0 < tickInterval)
    (hr : Reached os buf tickInterval t tr) (hnow : t.ticknow < 2 ^ 30) (hmem : Outside mem t)
    (hfree : Unclashed tr) (htimeout : timeout < 2 ^ 32) :
    Schedules t tr mem cbfunc data timeout ↔
      tickInterval ≠ 1 ∨ t.ticknow + timeout < 2 ^ 32 := by
  obtain ⟨B, pend, hi⟩ := hr.inv hos hinterval
  rw [← hi.interval] at hinterval ⊢
  constructor
  · intro hsched
    by_contra hnot
    push Not at hnot
    obtain ⟨hone, hwrap⟩ := hnot
    have hstored := storedTick_wrapped hone hnow htimeout hwrap
    refine hi.not_schedules hmem hfree (by omega) ?_ hsched
    rw [hstored, expiry]
    omega
  · exact fun hfits =>
      hi.schedules hmem hfree (storedTick_of_fits hinterval hnow htimeout hfits)

/-- The longest timeout, with ticks of a second. -/
theorem schedules_longest :
    ∃ t, Reached zeroLibc 4096 1000 t [] ∧ Schedules t [] plainMem (some 7) none 4294967295 := by
  have hr : Reached zeroLibc 4096 1000 _ _ := .new rfl
  refine ⟨_, hr, (schedules_iff zeroLibc_total (by decide) hr (by decide)
    (plainMem_outside (by decide)) (fun x hx => absurd hx List.not_mem_nil) (by decide)).mpr ?_⟩
  exact Or.inl (by decide)

/-- **The sum comes round** with ticks of a millisecond: after one tick the longest timeout is
scheduled for tick 0. -/
theorem schedules_past :
    ∃ t tr t' h a e, Reached zeroLibc 4096 1 t tr ∧ t.ticknow = 1 ∧
      t.addTimer plainMem none none 4294967295 = .ok (t', h) ∧
      t'.entryMap.getData h = .ok (some a) ∧ t'.entries.cell a = some e ∧ e.tick = 0 ∧
      ¬ Schedules t tr plainMem none none 4294967295 := by
  have h₀ : Reached zeroLibc 4096 1 _ _ := .new rfl
  have h₁ : Reached zeroLibc 4096 1 _ _ := h₀.tick (TickFits.silent Admits)
    (show EvTimer.processTick _ _ = .ok (_, _) from rfl)
  obtain ⟨B, pend, hi⟩ := h₁.inv zeroLibc_total (by decide)
  refine ⟨_, _, _, 1, 4096, _, h₁, rfl, rfl, rfl, rfl, rfl, ?_⟩
  exact hi.not_schedules (plainMem_outside (by decide)) (fun x hx => absurd hx List.not_mem_nil)
    (by decide) (by decide)

end Schedule

end EvTimer

end Axon
