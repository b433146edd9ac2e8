import Axon.Core.TimerInvariant

/-!
# Runs of `EvTimer`

What holds in every run of `add_timer`, `del_timer` and `process_tick` that adds fewer than `2 ^ 31`
timers, whatever the callbacks do with the timer within a policy.

* **`EvTimer.Run`** : the runs, with the trace of what was observed.
* **`EvTimer.observes_brief`** : the lives of the timers can be recorded of them.
* **`EvTimer.Run.inv`** : the invariant holds in every state reached.
* **`EvTimer.fires_on_time`**, **`EvTimer.books_agree`**, **`EvTimer.cancel_in_callback`** : what
  follows for all runs.
-/

namespace Axon

open Library

namespace EvTimer

/-! ## Runs -/

/-- The calls considered: memory is as it should be, the expiry tick of a new timer is below the
upper limit, and fewer than `2 ^ 31` timers are added; `handle_` counts them. -/
def Fits (t : EvTimer) : TimerCall → Prop
  | .add mem _ _ timeout =>
      Outside mem t ∧ expiry t.tickInterval t.ticknow timeout < 2 ^ 30 ∧ t.handle + 1 < 2 ^ 31
  | .del _ => True

/-- The calls of one callback are as considered, and its cancellations are allowed. -/
def CallsOk (allow : EvTimer → ℤ → Prop) : EvTimer → List TimerCall → Prop
  | _, [] => True
  | t, c :: cs => Fits t c ∧ (∀ handle, c = .del handle → allow t handle) ∧
      ∀ t' evs, t.call c = .ok (t', evs) → CallsOk allow t' cs

/-- So are the calls of the callbacks of a bucket, from `p` on. -/
def RunOk (policy : Policy) (head : Option ℕ) (env : ℕ → List TimerCall) :
    ℕ → ℕ → EvTimer → Option ℕ → Prop
  | _, _, _, none => True
  | 0, _, _, some _ => True
  | fuel + 1, j, t, some p => ∀ e, deref t.entries p = .ok e →
      match e.cbfunc with
      | none => RunOk policy head env fuel j t e.next
      | some _ => CallsOk (policy head e.next) t (env j) ∧
          ∀ t' evs, t.calls (env j) = .ok (t', evs) →
            RunOk policy head env fuel (j + 1) t' e.next

/-- So are the calls of the callbacks of the next tick. -/
def TickOk (policy : Policy) (t : EvTimer) (env : ℕ → List TimerCall) : Prop :=
  ∀ t' head, t.advance = .ok t' → t'.wheelAt 0 (t'.slotNow 0) = .ok head →
    RunOk policy head env t'.entries.bound 0 t' head

/-- **The runs** of a timer with ticks of `tickInterval`, with their traces.  Outside callbacks any
handle may be cancelled. -/
inductive Run (policy : Policy) (os : Libc) (buf tickInterval : ℕ) :
    EvTimer → List TimerEvent → Prop where
  | new {t : EvTimer} : EvTimer.new os buf tickInterval = .ok t →
      Run policy os buf tickInterval t []
  | call {t t' : EvTimer} {tr evs : List TimerEvent} {c : TimerCall} :
      Run policy os buf tickInterval t tr → Fits t c → t.call c = .ok (t', evs) →
      Run policy os buf tickInterval t' (tr ++ evs)
  | tick {t t' : EvTimer} {tr evs : List TimerEvent} (env : ℕ → List TimerCall) :
      Run policy os buf tickInterval t tr → TickOk policy t env →
      t.processTick env = .ok (t', evs) → Run policy os buf tickInterval t' (tr ++ evs)

/-- It is enough to look at the calls each callback may make, in any state. -/
lemma RunOk.of_calls {policy : Policy} {head : Option ℕ} {env : ℕ → List TimerCall} {fuel j : ℕ}
    {t : EvTimer} {p : Option ℕ}
    (h : ∀ j', j ≤ j' → ∀ next t, CallsOk (policy head next) t (env j')) :
    RunOk policy head env fuel j t p := by
  induction fuel generalizing j t p with
  | zero => cases p <;> trivial
  | succ fuel ih =>
      cases p with
      | none => trivial
      | some p =>
          intro e _
          cases e.cbfunc with
          | none => exact ih h
          | some cb =>
              exact ⟨h j (Nat.le_refl j) e.next t,
                fun t' evs _ => ih fun j' hj' => h j' (Nat.le_of_succ_le hj')⟩

/-- Only the first callback of the tick makes calls. -/
lemma TickOk.of_first {policy : Policy} {t t' : EvTimer} {env : ℕ → List TimerCall} {p cb : ℕ}
    {e : TimerEntry} (hadv : t.advance = .ok t')
    (hhead : t'.wheelAt 0 (t'.slotNow 0) = .ok (some p)) (he : t'.entries.cell p = some e)
    (hcb : e.cbfunc = some cb) (hcalls : CallsOk (policy (some p) e.next) t' (env 0))
    (hrest : ∀ j, env (j + 1) = []) :
    TickOk policy t env := by
  intro t'' head hadv' hhead'
  obtain rfl := Except.ok.inj (hadv.symm.trans hadv')
  obtain rfl := Except.ok.inj (hhead.symm.trans hhead')
  have hlive : t'.entries.Live p := Heap.live_iff.mpr ⟨e, he⟩
  obtain ⟨fuel, hfuel⟩ := Nat.exists_eq_succ_of_ne_zero
    (Nat.ne_of_gt (Nat.lt_of_le_of_lt (Nat.zero_le p) hlive.lt_bound))
  have hlater : ∀ j', 1 ≤ j' → ∀ next t, CallsOk (policy (some p) next) t (env j') := by
    intro j' hj' next t
    obtain ⟨j', rfl⟩ := Nat.exists_eq_succ_of_ne_zero (Nat.ne_of_gt hj')
    rw [hrest j']
    trivial
  rw [hfuel]
  intro e' he'
  obtain rfl := Except.ok.inj ((deref_eq he).symm.trans he')
  simp only [hcb]
  exact ⟨hcalls, fun t' evs _ => RunOk.of_calls hlater⟩

/-- Memory that is always new, and behind a pool that ends below. -/
def plainMem : TimerMem where
  mapEntry := Allocator.above _ 1
  malloc := Allocator.above _ 500000
  junk := ⟨0, none, 0, none, none⟩

lemma plainMem_outside {t : EvTimer} (h : t.entryPool.bufEnd < 500000) : Outside plainMem t :=
  fun _ => Or.inr (Nat.lt_of_lt_of_le h (Nat.le_max_right _ _))

/-! ## All runs -/

section Runs

variable {late : Prop} {os : Libc} {buf tickInterval : ℕ} {policy : Policy} {t : EvTimer}
  {tr : List TimerEvent}

lemma CallsOk.fits {allow : EvTimer → ℤ → Prop} {cs : List TimerCall} (h : CallsOk allow t cs) :
    CallsFit (fun _ => Fits) allow tr t cs := by
  induction cs generalizing t tr with
  | nil => trivial
  | cons c cs ih => exact ⟨h.1, h.2.1, fun t' evs hcall => ih (h.2.2 t' evs hcall)⟩

lemma RunOk.fits {head p : Option ℕ} {env : ℕ → List TimerCall} {fuel j : ℕ}
    (h : RunOk policy head env fuel j t p) :
    RunFits (fun _ => Fits) policy head env fuel j tr t p := by
  induction fuel generalizing j t p tr with
  | zero => cases p <;> trivial
  | succ fuel ih =>
      cases p with
      | none => trivial
      | some p =>
          intro e he
          have hok := h e he
          cases hcb : e.cbfunc with
          | none =>
              simp only [hcb] at hok ⊢
              exact ih hok
          | some cb =>
              simp only [hcb] at hok ⊢
              exact ⟨hok.1.fits, fun t' evs hcalls => ih (hok.2 t' evs hcalls)⟩

lemma TickOk.fits {env : ℕ → List TimerCall} (h : TickOk policy t env) :
    TickFits (fun _ => Fits) policy tr t env :=
  fun t' head hadv hhead => (h t' head hadv hhead).fits

/-- A run begins with a new timer. -/
lemma Run.leads (hr : Run policy os buf tickInterval t tr) :
    ∃ t₀, EvTimer.new os buf tickInterval = .ok t₀ ∧
      Leads (fun _ => Fits) policy t₀ [] t tr := by
  induction hr with
  | new hnew => exact ⟨_, hnew, .refl⟩
  | call _ hfits hcall ih =>
      obtain ⟨t₀, hnew, hleads⟩ := ih
      exact ⟨t₀, hnew, hleads.call hfits hcall⟩
  | tick env _ hok htick ih =>
      obtain ⟨t₀, hnew, hleads⟩ := ih
      exact ⟨t₀, hnew, hleads.tick env hok.fits htick⟩

/-- The lives of timers, while no handle has come round. -/
def Brief (late : Prop) (tickInterval : ℕ) : Observer := fun now k pend ran tr =>
  Lives late tickInterval now k pend ran tr ∧ adds tr < 2 ^ 31

/-- **They can be recorded** of these runs. -/
lemma observes_brief : Observes (fun _ => Fits) late tickInterval (Brief late tickInterval) := by
  have hroom : ∀ {t : EvTimer} {pend ran tr},
      Lives late tickInterval t.ticknow t.handle pend ran tr → adds tr < 2 ^ 31 →
      t.handle + 1 < 2 ^ 31 → adds tr + 1 < 2 ^ 31 := by
    intro t pend ran tr hl hlt hcount
    rw [hl.handle, handleOf_eq_self hlt] at hcount
    omega
  have hfree : ∀ {t : EvTimer} {pend ran tr},
      Lives late tickInterval t.ticknow t.handle pend ran tr → adds tr < 2 ^ 31 →
      t.handle + 1 < 2 ^ 31 → Unclashed tr := fun hl hlt hcount =>
    unclashed_of_lt (fun x hx => ⟨(hl.serial x hx).1, (hl.serial x hx).2.1⟩) (hroom hl hlt hcount)
  refine ⟨?_, ?_, ?_, ?_, ?_, ?_, ?_⟩
  · rintro t pend ran tr mem cbfunc data timeout hI ⟨hl, hlt⟩ ⟨hmem, hlim, hcount⟩
    exact ⟨hmem, hI ▸ hlim, hl.fresh_iff.mpr (hfree hl hlt hcount)⟩
  · rintro t pend ran tr mem cbfunc data timeout a hI ⟨hl, hlt⟩ ⟨hmem, hlim, hcount⟩ ha
    refine ⟨hl.add (hfree hl hlt hcount) ha, ?_⟩
    rw [adds_added]
    exact hroom hl hlt hcount
  · rintro now k pend ran tr ⟨hl, hlt⟩ h
    refine ⟨hl.del_none h, ?_⟩
    rwa [adds, serials_deleted_none]
  · rintro now k pend ran ran' tr p ⟨hl, hlt⟩ hp hlate hran
    refine ⟨hl.del hp hlate hran, ?_⟩
    rwa [adds, serials_deleted]
  · rintro now k pend ran tr p ⟨hl, hlt⟩ hp hnot hhandle haddr
    refine ⟨hl.fire hp hnot hhandle haddr, ?_⟩
    rwa [adds_firing]
  · rintro now k pend gone ran tr ⟨hl, hlt⟩ hsub hnodup hran hrest
    refine ⟨hl.free hsub hnodup hran hrest, ?_⟩
    rwa [adds_gone]
  · rintro now now' k pend ran tr ⟨hl, hlt⟩ hle
    exact ⟨hl.mono hle, hlt⟩

lemma Run.recorded (hpolicy : Sparing policy late) (hos : os.Total) (hinterval : 0 < tickInterval)
    (hr : Run policy os buf tickInterval t tr) :
    ∃ B pend, Inv tickInterval (Brief late tickInterval) t B pend [] [] tr := by
  obtain ⟨t₀, hnew, hleads⟩ := hr.leads
  obtain ⟨t₁, hnew₁, hi⟩ := @inv_new tickInterval (Brief late tickInterval) os buf hos hinterval
    ⟨lives_nil, Nat.two_pow_pos 31⟩
  obtain rfl := Except.ok.inj (hnew.symm.trans hnew₁)
  exact hleads.inv observes_brief hpolicy ⟨_, _, hi⟩

/-- **The invariant holds in every state reached** by callbacks that spare what `process_tick`
points to. -/
lemma Run.inv (hpolicy : Sparing policy late) (hos : os.Total) (hinterval : 0 < tickInterval)
    (hr : Run policy os buf tickInterval t tr) :
    ∃ B pend, Inv tickInterval (Ledger late tickInterval) t B pend [] [] tr := by
  obtain ⟨B, pend, hi⟩ := hr.recorded hpolicy hos hinterval
  exact ⟨B, pend, { hi with record := hi.record.1.ledger hi.record.2 }⟩

/-- No call and no tick below the upper limit fails. -/
lemma Run.progress (hpolicy : Sparing policy late) (hos : os.Total) (hinterval : 0 < tickInterval)
    (hr : Run policy os buf tickInterval t tr) :
    (∀ c, Fits t c → ∃ t' evs, t.call c = .ok (t', evs)) ∧
      ∀ env, TickOk policy t env → t.ticknow + 1 < 2 ^ 30 →
        ∃ t' evs, t.processTick env = .ok (t', evs) ∧ t'.ticknow = t.ticknow + 1 := by
  obtain ⟨B, pend, hi⟩ := hr.recorded hpolicy hos hinterval
  obtain ⟨hcall, htick⟩ := hi.progress observes_brief hpolicy
  exact ⟨hcall, fun env hok => htick env hok.fits⟩

/-- **Timers fire exactly once and exactly on time.**  In every run in which callbacks do not call
`del_timer`: the callback of a timer is invoked in the tick it expires at, with its own handle and
data, and never again; not at all when it was cancelled; and nothing else is ever invoked.  No
handle is given out twice, and no call and no tick fails. -/
theorem fires_on_time (hos : os.Total) (hinterval : 0 < tickInterval)
    (hr : Run NoDel os buf tickInterval t tr) :
    (∀ n timeout h cbfunc data, .added n timeout h cbfunc data ∈ tr →
      invocations h tr =
        if .deleted h 0 ∈ tr then []
        else if expiry tickInterval n timeout ≤ t.ticknow then
          firing (expiry tickInterval n timeout) cbfunc h data
        else []) ∧
    Owned tickInterval tr ∧
    (handles tr).Nodup ∧
    (∀ c, Fits t c → ∃ t' evs, t.call c = .ok (t', evs)) ∧
    ∀ env, TickOk NoDel t env → t.ticknow + 1 < 2 ^ 30 →
      ∃ t' evs, t.processTick env = .ok (t', evs) ∧ t'.ticknow = t.ticknow + 1 := by
  obtain ⟨B, pend, hi⟩ := hr.inv noDel_sparing hos hinterval
  refine ⟨fun n timeout h cbfunc data hadd => ?_, hi.record.owned, hi.record.handles_nodup,
    hr.progress noDel_sparing hos hinterval⟩
  split_ifs with hdel hle
  · exact hi.record.invocations_of_deleted hadd hdel
  · rw [hi.record.invocations_of_not_deleted hi.ahead hadd hdel, if_pos hle]
  · rw [hi.record.invocations_of_not_deleted hi.ahead hadd hdel, if_neg hle]

/-- A timer that adds itself again from its callback. -/
theorem fires_on_time_routine :
    ∃ t tr, Run NoDel zeroLibc 4096 1000 t tr ∧
      invocations 1 tr = [.fired 1 7 1 (some 5)] ∧ invocations 2 tr = [] := by
  have h₀ : Run NoDel zeroLibc 4096 1000 _ _ := .new rfl
  have h₁ : Run NoDel zeroLibc 4096 1000 _ _ :=
    .call h₀ (c := .add plainMem (some 7) (some 5) 1500)
      ⟨plainMem_outside (by decide), by decide, by decide⟩
      (show EvTimer.call _ _ = .ok (_, _) from rfl)
  have h₂ : Run NoDel zeroLibc 4096 1000 _ _ :=
    .tick (fun j => if j = 0 then [.add plainMem (some 7) (some 5) 1500] else []) h₁
      (.of_first (p := 4096) rfl rfl rfl rfl
        ⟨⟨plainMem_outside (by decide), by decide, by decide⟩, by rintro _ ⟨⟩, fun _ _ _ => trivial⟩
        fun _ => rfl)
      (show EvTimer.processTick _ _ = .ok (_, _) from rfl)
  refine ⟨_, _, h₂, ?_, ?_⟩
  · exact (fires_on_time zeroLibc_total (by decide) h₂).1 0 1500 1 (some 7) (some 5) (by decide)
  · exact (fires_on_time zeroLibc_total (by decide) h₂).1 1 1500 2 (some 7) (some 5) (by decide)

/-- **Wheels, hash table and pool agree** on the pending timers `pend`, where `B` has the entries of
the buckets. -/
structure Agrees (t : EvTimer) (B : ℕ × ℕ → List ℕ) (pend : List PTimer) : Prop where
  wheels : ∀ i, Chain (nexts t.entries) (t.wheel i) (B i)
  entries : ∀ p ∈ pend, timers t.entries p.addr = some (p.handle, p.cbfunc, p.tick, p.data)
  once : ∀ p ∈ pend, ∃ i, t.whichSlot p.tick = .ok i ∧
    ∀ j, (B j).count p.addr = if j = i then 1 else 0
  only : ∀ i, ∀ a ∈ B i, a ∈ pend.map PTimer.addr
  map : ∀ h, t.entryMap.getData h = .ok ((pend.find? fun p => p.handle = h).map PTimer.addr)
  pool : ∃ fl, t.entryPool.Owns t.entries kEntryPoolSize (pend.map PTimer.addr) fl

lemma Filed.agrees {B : ℕ × ℕ → List ℕ} {pend : List PTimer} (hf : Filed t B pend) :
    Agrees t B pend where
  wheels := hf.chains.chain
  entries := hf.books.info
  once p hp := by
    refine ⟨_, whichSlot_eq (hf.limit p hp), fun j => ?_⟩
    have hnodup := (hf.chains.chain j).nodup
    split_ifs with hj
    · exact List.count_eq_one_of_mem hnodup (hj ▸ hf.addr_mem hp)
    · refine List.count_eq_zero_of_not_mem fun hmem => hj ?_
      exact hf.chains.disjoint j _ p.addr hmem (hf.addr_mem hp)
  only i a ha := by
    obtain ⟨p, hp, rfl, -⟩ := (hf.mem i a).mp ha
    exact List.mem_map_of_mem hp
  map := hf.books.getData
  pool := hf.books.pool

/-- A timer is pending when it was added, and neither cancelled nor freed by a tick. -/
def Pending (tr : List TimerEvent) (h : ℤ) : Prop :=
  (∃ n timeout cbfunc data, .added n timeout h cbfunc data ∈ tr) ∧
    .deleted h 0 ∉ tr ∧ .freed h ∉ tr

/-- **The bookkeeping agrees and cancellation is reliable.**  In every run in which callbacks do not
call `del_timer`: each pending timer is once in the wheels, in the bucket `which_slot` computes now,
and the hash table maps exactly the pending handles; `del_timer` of a pending handle returns 0 and
takes exactly that timer out, and of any other handle it returns -1 and changes nothing. -/
theorem books_agree (hos : os.Total) (hinterval : 0 < tickInterval)
    (hr : Run NoDel os buf tickInterval t tr) :
    ∃ B pend, Agrees t B pend ∧ (∀ h, h ∈ pend.map PTimer.handle ↔ Pending tr h) ∧
      (∀ p ∈ pend, ∃ t', t.delTimer p.handle = .ok (t', 0) ∧ SameTime t t' ∧
        t'.handle = t.handle ∧
        Agrees t' (fun j => (B j).erase p.addr) (pend.filter fun q => q.handle ≠ p.handle)) ∧
      ∀ h, h ∉ pend.map PTimer.handle → t.delTimer h = .ok (t, -1) := by
  obtain ⟨B, pend, hi⟩ := hr.inv noDel_sparing hos hinterval
  refine ⟨B, pend, hi.filed.agrees, fun h => hi.record.pending_iff, fun p hp => ?_,
    fun h hnot => hi.filed.del_none hnot⟩
  obtain ⟨t', hdel, hsame, hhandle, hf⟩ := hi.filed.del hp
  exact ⟨t', hdel, hsame, hhandle, hf.agrees⟩

/-- One of two timers is cancelled. -/
theorem books_agree_cancelled :
    ∃ t tr B pend, Run NoDel zeroLibc 4096 1000 t tr ∧ Agrees t B pend ∧
      2 ∈ pend.map PTimer.handle ∧ t.delTimer 1 = .ok (t, -1) := by
  have h₀ : Run NoDel zeroLibc 4096 1000 _ _ := .new rfl
  have h₁ : Run NoDel zeroLibc 4096 1000 _ _ :=
    .call h₀ (c := .add plainMem (some 7) (some 5) 1500)
      ⟨plainMem_outside (by decide), by decide, by decide⟩
      (show EvTimer.call _ _ = .ok (_, _) from rfl)
  have h₂ : Run NoDel zeroLibc 4096 1000 _ _ :=
    .call h₁ (c := .add plainMem (some 7) none 10240000)
      ⟨plainMem_outside (by decide), by decide, by decide⟩
      (show EvTimer.call _ _ = .ok (_, _) from rfl)
  have h₃ : Run NoDel zeroLibc 4096 1000 _ _ :=
    .call h₂ (c := .del 1) trivial (show EvTimer.call _ _ = .ok (_, _) from rfl)
  obtain ⟨B, pend, hagree, hpend, -, hnot⟩ := books_agree zeroLibc_total (by decide) h₃
  refine ⟨_, _, B, pend, h₃, hagree, (hpend 2).mpr ?_, hnot 1 fun h => ?_⟩
  · exact ⟨⟨0, 10240000, some 7, none, by decide⟩, by decide, by decide⟩
  · exact ((hpend 1).mp h).2.1 (by decide)

/-- **Cancelling from inside a callback.**  In every run in which callbacks spare the two timers
whose entries `process_tick` points to: after `del_timer` has returned 0 the callback of that timer
is not invoked, every other timer is invoked in the tick it expires at, once and with its own handle
and data, nothing else is ever invoked, and the entry of each timer is returned to the pool once,
when it is cancelled or has fired; no call and no tick fails. -/
theorem cancel_in_callback (hos : os.Total) (hinterval : 0 < tickInterval)
    (hr : Run Spares os buf tickInterval t tr) :
    (∀ h tr₁ tr₂, tr = tr₁ ++ .deleted h 0 :: tr₂ → invocations h tr₂ = []) ∧
    Owned tickInterval tr ∧
    (∀ n timeout h cbfunc data, .added n timeout h cbfunc data ∈ tr →
      (.deleted h 0 ∉ tr → invocations h tr =
        if expiry tickInterval n timeout ≤ t.ticknow then
          firing (expiry tickInterval n timeout) cbfunc h data else []) ∧
      (.deleted h 0 ∈ tr → invocations h tr = [] ∨
        invocations h tr = firing (expiry tickInterval n timeout) cbfunc h data) ∧
      returns h tr =
        if expiry tickInterval n timeout ≤ t.ticknow ∨ .deleted h 0 ∈ tr then 1 else 0) ∧
    (∃ B pend, Agrees t B pend ∧ ∀ h, h ∈ pend.map PTimer.handle ↔ Pending tr h) ∧
    (∀ c, Fits t c → ∃ t' evs, t.call c = .ok (t', evs)) ∧
    ∀ env, TickOk Spares t env → t.ticknow + 1 < 2 ^ 30 →
      ∃ t' evs, t.processTick env = .ok (t', evs) ∧ t'.ticknow = t.ticknow + 1 := by
  obtain ⟨B, pend, hi⟩ := hr.inv spares_sparing hos hinterval
  refine ⟨fun h tr₁ tr₂ htr => hi.record.invocations_after_deleted htr, hi.record.owned,
    fun n timeout h cbfunc data hadd => ⟨?_, ?_, hi.record.returns_eq hi.ahead hadd⟩,
    ⟨B, pend, hi.filed.agrees, fun h => hi.record.pending_iff⟩,
    hr.progress spares_sparing hos hinterval⟩
  · exact hi.record.invocations_of_not_deleted hi.ahead hadd
  · exact fun _ => hi.record.invocations_le hadd

/-- Of three timers due in one tick, the first one run cancels the last one. -/
theorem cancel_in_callback_later :
    ∃ t tr, Run Spares zeroLibc 4096 1000 t tr ∧ .deleted 1 0 ∈ tr ∧
      invocations 2 tr = [.fired 1 7 2 none] ∧ returns 1 tr = 1 := by
  have h₀ : Run Spares zeroLibc 4096 1000 _ _ := .new rfl
  have h₁ : Run Spares zeroLibc 4096 1000 _ _ :=
    .call h₀ (c := .add plainMem (some 7) none 0)
      ⟨plainMem_outside (by decide), by decide, by decide⟩
      (show EvTimer.call _ _ = .ok (_, _) from rfl)
  have h₂ : Run Spares zeroLibc 4096 1000 _ _ :=
    .call h₁ (c := .add plainMem (some 7) none 0)
      ⟨plainMem_outside (by decide), by decide, by decide⟩
      (show EvTimer.call _ _ = .ok (_, _) from rfl)
  have h₃ : Run Spares zeroLibc 4096 1000 _ _ :=
    .call h₂ (c := .add plainMem (some 7) none 0)
      ⟨plainMem_outside (by decide), by decide, by decide⟩
      (show EvTimer.call _ _ = .ok (_, _) from rfl)
  have h₄ : Run Spares zeroLibc 4096 1000 _ _ :=
    .tick (fun j => if j = 0 then [.del 1] else []) h₃
      (.of_first (p := 4178) (e := ⟨3, some 7, 1, none, some 4137⟩) rfl rfl rfl rfl
        ⟨trivial, by
          rintro _ ⟨⟩ x hx
          have hget := (show HmapT.getData _ (1 : ℤ) = .ok (some 4096) from rfl).symm.trans hx
          obtain rfl : 4096 = x := Option.some.inj (Except.ok.inj hget)
          exact ⟨by decide, by decide⟩, fun _ _ _ => trivial⟩ fun _ => rfl)
      (show EvTimer.processTick _ _ = .ok (_, _) from rfl)
  refine ⟨_, _, h₄, by decide, ?_, ?_⟩
  · exact ((cancel_in_callback zeroLibc_total (by decide) h₄).2.2.1 0 0 2 (some 7) none
      (by decide)).1 (by decide)
  · exact ((cancel_in_callback zeroLibc_total (by decide) h₄).2.2.1 0 0 1 (some 7) none
      (by decide)).2.2

/-- **Callbacks may not cancel at will.**  A timer that cancels itself while it is the head of its
bucket is freed a second time, which `MemPool::free` notices; and a timer whose entry is next is
invoked after it was cancelled, with the handle its entry has as a free node. -/
theorem cancel_in_callback_fails :
    (∃ t tr env, Run AnyDel zeroLibc 4096 1000 t tr ∧ TickOk AnyDel t env ∧
      t.processTick env = .error (.rtAssert "*(pc + elt_size_) == POOL_ALLOC_FLAG")) ∧
    ∃ t tr env t' , Run AnyDel zeroLibc 4096 1000 t tr ∧ TickOk AnyDel t env ∧
      .added 0 0 1 (some 8) (some 5) ∈ tr ∧
      t.processTick env = .ok (t',
        [.fired 1 7 2 none, .deleted 1 0, .fired 1 8 2 (some 5), .freed 2]) := by
  have h₀ : Run AnyDel zeroLibc 4096 1000 _ _ := .new rfl
  have h₁ : Run AnyDel zeroLibc 4096 1000 _ _ :=
    .call h₀ (c := .add plainMem (some 8) (some 5) 0)
      ⟨plainMem_outside (by decide), by decide, by decide⟩
      (show EvTimer.call _ _ = .ok (_, _) from rfl)
  have h₂ : Run AnyDel zeroLibc 4096 1000 _ _ :=
    .call h₁ (c := .add plainMem (some 7) none 0)
      ⟨plainMem_outside (by decide), by decide, by decide⟩
      (show EvTimer.call _ _ = .ok (_, _) from rfl)
  refine ⟨⟨_, _, fun j => if j = 0 then [.del 1] else [], h₁, ?_, rfl⟩,
    ⟨_, _, fun j => if j = 0 then [.del 1] else [], _, h₂, ?_, by decide, rfl⟩⟩
  · exact .of_first (p := 4096) rfl rfl rfl rfl
      ⟨trivial, fun _ _ => trivial, fun _ _ _ => trivial⟩ fun _ => rfl
  · exact .of_first (p := 4137) rfl rfl rfl rfl
      ⟨trivial, fun _ _ => trivial, fun _ _ _ => trivial⟩ fun _ => rfl

end Runs

end EvTimer

end Axon
