import Axon.Core.TimerRuns
import Axon.Library.Traced

/-!
# Accesses to the wheels

Which elements `wheel_[w][s]` a run of the timer accesses.  A wheel has 1024 slots, so an access is
inside the wheels if `w < 3` and `s < 1024`.

* **`EvTimer.Logged`** : the functions of the timer once more, each logging the elements it reads
  and assigns.  Forgetting the log gives the functions back (`processTick_result`).
* **`InWheels`**, `addTimer_spec`, `delTimer_spec` : timers are only ever put into slots there are.
* **`advance_spec`**, `advance_outside` : a tick stays inside unless two wheels come round together;
  then the second wheel is accessed at its position 1024, before that position is set back to 0.
* `advance_limit` : the tick `2^30 + 2^20` leaves the third wheel altogether.
* **`in_wheels_iff`** : a run stays inside the wheels exactly as long as it makes fewer than `2^20`
  ticks.
-/

namespace Axon

open Library

namespace EvTimer

/-- A computation on the timer, with the elements of the wheels it accesses. -/
abbrev Accessing := Traced (ℕ × ℕ) Fault

namespace Logged

/-! ## The functions of the timer -/

/-- Reads `wheel_[w][s]`. -/
def wheelAt (t : EvTimer) (w s : ℕ) : Accessing (Option ℕ) := .tell (w, s) (t.wheelAt w s)

/-- Assigns to `wheel_[w][s]`. -/
def setWheel (t : EvTimer) (w s : ℕ) (p : Option ℕ) : Accessing EvTimer :=
  .tell (w, s) (t.setWheel w s p)

/-- `EvTimer::add_timer`. -/
def addTimer (t : EvTimer) (mem : TimerMem) (cbfunc data : Option ℕ) (timeout : ℕ) :
    Accessing (EvTimer × ℤ) := do
  let (pool, entries, pe) ← .lift (t.entryPool.alloc mem.malloc mem.junk t.entries)
  let handle := nextHandle t.handle
  if t.tickInterval < timeout ∧ t.tickInterval = 0 then .lift (.error .divByZero)
  else
    let tick :=
      if t.tickInterval < timeout then u32 (t.ticknow + timeout / t.tickInterval)
      else u32 (t.ticknow + 1)
    let entries ← .lift (assign entries pe fun e =>
      { e with cbfunc := cbfunc, data := data, handle := handle, tick := tick })
    let entryMap ← .lift (t.entryMap.insert (mem.mapEntry.new t.entryMap.entries) handle (some pe))
    let t := { t with
      entryPool := pool, entries := entries, handle := handle, entryMap := entryMap }
    let (w, slot) ← .lift (t.whichSlot tick)
    let head ← wheelAt t w slot
    let entries ← .lift (assign t.entries pe fun e => { e with next := head })
    let t ← setWheel { t with entries := entries } w slot (some pe)
    pure (t, handle)

/-- `EvTimer::del_timer`. -/
def delTimer (t : EvTimer) (handle : ℤ) : Accessing (EvTimer × ℤ) := do
  let (entryMap, pe) ← .lift (t.entryMap.removeGet handle)
  let t := { t with entryMap := entryMap }
  match pe with
  | none => pure (t, -1)
  | some pe => do
      let e ← .lift (deref t.entries pe)
      let (w, slot) ← .lift (t.whichSlot e.tick)
      match ← wheelAt t w slot with
      | none => pure (t, -1)
      | some pw => do
          let head ← .lift (deref t.entries pw)
          if head.handle = handle then do
            .lift (rtAssert "pw == pe" (pw = pe))
            let t ← setWheel t w slot head.next
            let (pool, entries) ← .lift (t.entryPool.free t.entries pe)
            pure ({ t with entries := entries, entryPool := pool }, 0)
          else .lift (t.delFrom handle pe t.entries.bound pw head.next)

/-- One call on the timer. -/
def call (t : EvTimer) : TimerCall → Accessing (EvTimer × List TimerEvent)
  | .add mem cbfunc data timeout => do
      let (t', handle) ← addTimer t mem cbfunc data timeout
      pure (t', [.added t.ticknow timeout handle cbfunc data])
  | .del handle => do
      let (t, ret) ← delTimer t handle
      pure (t, [.deleted handle ret])

/-- The calls of one callback. -/
def calls : EvTimer → List TimerCall → Accessing (EvTimer × List TimerEvent)
  | t, [] => pure (t, [])
  | t, c :: cs => do
      let (t, evs) ← call t c
      let (t, evs') ← calls t cs
      pure (t, evs ++ evs')

/-- The loop of `process_tick` that moves the entries of a bucket. -/
def moveFrom : ℕ → EvTimer → Option ℕ → Accessing EvTimer
  | _, t, none => pure t
  | 0, _, some _ => .lift (.error .hang)
  | fuel + 1, t, some p => do
      let e ← .lift (deref t.entries p)
      let (targetWheel, tslot) ← .lift (t.whichSlot e.tick)
      let head ← wheelAt t targetWheel tslot
      let entries ← .lift (assign t.entries p fun e => { e with next := head })
      let t ← setWheel { t with entries := entries } targetWheel tslot (some p)
      moveFrom fuel t e.next

/-- The body of the first loop of `process_tick`. -/
def updateWheel (t : EvTimer) (i : ℕ) : Accessing EvTimer :=
  if t.slotNow i < slotPerWheel then pure t
  else do
    let slot := u32 (t.slotNow (i + 1) + 1)
    let t := { t with slotNow := Function.update (Function.update t.slotNow i 0) (i + 1) slot }
    let p ← wheelAt t (i + 1) slot
    let t ← moveFrom t.entries.bound t p
    setWheel t (i + 1) slot none

/-- The loop of `process_tick` that invokes the callbacks of a bucket. -/
def runFrom (env : ℕ → List TimerCall) : ℕ → ℕ → EvTimer → Option ℕ →
    Accessing (EvTimer × List TimerEvent)
  | _, _, t, none => pure (t, [])
  | 0, _, _, some _ => .lift (.error .hang)
  | fuel + 1, j, t, some p => do
      let e ← .lift (deref t.entries p)
      match e.cbfunc with
      | none => runFrom env fuel j t e.next
      | some cb => do
          let (t', evs) ← calls t (env j)
          let (t', evs') ← runFrom env fuel (j + 1) t' e.next
          pure (t', .fired t.ticknow cb e.handle e.data :: evs ++ evs')

/-- The part of `process_tick` before the current bucket is run. -/
def advance (t : EvTimer) : Accessing EvTimer := do
  let t := { t with
    ticknow := u32 (t.ticknow + 1)
    slotNow := Function.update t.slotNow 0 (u32 (t.slotNow 0 + 1)) }
  let t ← updateWheel t 0
  updateWheel t 1

/-- `EvTimer::process_tick`; its last loop, which deletes the entries of the bucket, does not use
the wheels. -/
def processTick (t : EvTimer) (env : ℕ → List TimerCall) :
    Accessing (EvTimer × List TimerEvent) := do
  let t ← advance t
  let head ← wheelAt t 0 (t.slotNow 0)
  if head = none then pure (t, [])
  else do
    let (t, evs) ← runFrom env t.entries.bound 0 t head
    let (t, evs') ← .lift (deleteFrom t.entries.bound t head)
    let t ← setWheel t 0 (t.slotNow 0) none
    pure (t, evs ++ evs')

/-! ## Forgetting the log -/

open Traced

@[simp] lemma wheelAt_result (t : EvTimer) (w s : ℕ) : (wheelAt t w s).result = t.wheelAt w s := rfl

@[simp] lemma setWheel_result (t : EvTimer) (w s : ℕ) (p : Option ℕ) :
    (setWheel t w s p).result = t.setWheel w s p := rfl

lemma addTimer_result (t : EvTimer) (mem : TimerMem) (cbfunc data : Option ℕ) (timeout : ℕ) :
    (addTimer t mem cbfunc data timeout).result = t.addTimer mem cbfunc data timeout := by
  rw [addTimer, EvTimer.addTimer, result_bind, result_lift]
  refine bind_congr fun r => ?_
  obtain ⟨pool, entries, pe⟩ := r
  dsimp only
  rw [result_ite]
  by_cases hz : t.tickInterval < timeout ∧ t.tickInterval = 0
  · rw [if_pos hz, if_pos hz, result_lift]
  · rw [if_neg hz, if_neg hz]
    simp only [result_bind, result_lift, wheelAt_result, setWheel_result, result_pure]
    rfl

lemma delTimer_result (t : EvTimer) (handle : ℤ) :
    (delTimer t handle).result = t.delTimer handle := by
  rw [delTimer, EvTimer.delTimer, result_bind, result_lift]
  refine bind_congr fun r => ?_
  obtain ⟨entryMap, pe⟩ := r
  cases pe with
  | none => rfl
  | some pe =>
      simp only [result_bind, result_lift, wheelAt_result]
      refine bind_congr fun e => bind_congr fun i => bind_congr fun head => ?_
      cases head with
      | none => rfl
      | some pw =>
          simp only [result_bind, result_lift, result_ite, setWheel_result, result_pure]
          rfl

lemma call_result (t : EvTimer) (c : TimerCall) : (call t c).result = t.call c := by
  cases c with
  | add mem cbfunc data timeout =>
      rw [call, EvTimer.call, result_bind, addTimer_result]
      rfl
  | del handle =>
      rw [call, EvTimer.call, result_bind, delTimer_result]
      rfl

lemma calls_result (t : EvTimer) (cs : List TimerCall) : (calls t cs).result = t.calls cs := by
  induction cs generalizing t with
  | nil => rfl
  | cons c cs ih =>
      rw [calls, EvTimer.calls, result_bind, call_result]
      refine bind_congr fun r => ?_
      dsimp only
      rw [result_bind, ih]
      rfl

lemma moveFrom_result (fuel : ℕ) (t : EvTimer) (p : Option ℕ) :
    (moveFrom fuel t p).result = EvTimer.moveFrom fuel t p := by
  induction fuel generalizing t p with
  | zero => cases p <;> rfl
  | succ fuel ih =>
      cases p with
      | none => rfl
      | some p =>
          rw [moveFrom, EvTimer.moveFrom]
          simp only [result_bind, result_lift, wheelAt_result, setWheel_result, ih]

lemma updateWheel_result (t : EvTimer) (i : ℕ) :
    (updateWheel t i).result = t.updateWheel i := by
  rw [updateWheel, EvTimer.updateWheel, result_ite]
  simp only [result_bind, result_pure, wheelAt_result, setWheel_result, moveFrom_result]

lemma runFrom_result (env : ℕ → List TimerCall) (fuel j : ℕ) (t : EvTimer) (p : Option ℕ) :
    (runFrom env fuel j t p).result = EvTimer.runFrom env fuel j t p := by
  induction fuel generalizing j t p with
  | zero => cases p <;> rfl
  | succ fuel ih =>
      cases p with
      | none => rfl
      | some p =>
          rw [runFrom, EvTimer.runFrom, result_bind, result_lift]
          refine bind_congr fun e => ?_
          cases e.cbfunc with
          | none => exact ih j t e.next
          | some cb =>
              simp only [result_bind, calls_result, ih]
              rfl

lemma advance_result (t : EvTimer) : (advance t).result = t.advance := by
  rw [advance, EvTimer.advance, result_bind]
  simp only [updateWheel_result]

/-- **The functions with a log are the functions of the timer.** -/
lemma processTick_result (t : EvTimer) (env : ℕ → List TimerCall) :
    (processTick t env).result = t.processTick env := by
  rw [processTick, EvTimer.processTick, result_bind, advance_result]
  refine bind_congr fun t => ?_
  simp only [result_bind, result_ite, result_lift, wheelAt_result, setWheel_result,
    runFrom_result]
  rfl

/-! ## Calls -/

/-- An element the wheels have. -/
def InWheels (i : ℕ × ℕ) : Prop := i.1 < totalWheel ∧ i.2 < slotPerWheel

/-- The tick, the positions and the interval are the same. -/
structure SameClock (t t' : EvTimer) : Prop where
  ticknow : t'.ticknow = t.ticknow
  slotNow : t'.slotNow = t.slotNow
  tickInterval : t'.tickInterval = t.tickInterval

lemma SameClock.trans {t t' t'' : EvTimer} (h : SameClock t t') (h' : SameClock t' t'') :
    SameClock t t'' :=
  ⟨h'.ticknow.trans h.ticknow, h'.slotNow.trans h.slotNow,
    h'.tickInterval.trans h.tickInterval⟩

/-- **`which_slot` answers with a slot there is.** -/
lemma whichSlot_inWheels {t : EvTimer} {tick : ℕ} {i : ℕ × ℕ} (h : t.whichSlot tick = .ok i) :
    InWheels i := by
  have hlimit : tick < 2 ^ 30 := by
    rw [whichSlot] at h
    obtain ⟨_, hassert, -⟩ := bind_eq_ok h
    have hlt := rtAssert_eq_ok hassert
    rw [slotPerWheel, totalWheel] at hlt
    omega
  rw [whichSlot_eq hlimit] at h
  obtain rfl := Except.ok.inj h
  refine ⟨?_, place_slot_lt t.slotNow tick⟩
  rw [place, totalWheel]
  split_ifs <;> simp

lemma setWheel_sameClock {t t' : EvTimer} {w s : ℕ} {p : Option ℕ}
    (h : t.setWheel w s p = .ok t') : SameClock t t' := by
  rw [EvTimer.setWheel] at h
  split_ifs at h
  obtain rfl := Except.ok.inj h
  exact ⟨rfl, rfl, rfl⟩

lemma delFrom_sameClock {t t' : EvTimer} {handle ret : ℤ} {pe fuel pw : ℕ} {q : Option ℕ}
    (h : t.delFrom handle pe fuel pw q = .ok (t', ret)) : SameClock t t' := by
  induction fuel generalizing pw q with
  | zero =>
      cases q with
      | none =>
          obtain ⟨rfl, -⟩ := Prod.mk.inj (Except.ok.inj h)
          exact ⟨rfl, rfl, rfl⟩
      | some q => exact absurd h nofun
  | succ fuel ih =>
      cases q with
      | none =>
          obtain ⟨rfl, -⟩ := Prod.mk.inj (Except.ok.inj h)
          exact ⟨rfl, rfl, rfl⟩
      | some q =>
          rw [EvTimer.delFrom] at h
          obtain ⟨e, -, h⟩ := bind_eq_ok h
          split_ifs at h with hhandle
          · obtain ⟨_, -, h⟩ := bind_eq_ok h
            obtain ⟨entries, -, h⟩ := bind_eq_ok h
            obtain ⟨r, -, h⟩ := bind_eq_ok h
            obtain ⟨rfl, -⟩ := Prod.mk.inj (Except.ok.inj h)
            exact ⟨rfl, rfl, rfl⟩
          · exact ih h

lemma deleteFrom_sameClock {t t' : EvTimer} {fuel : ℕ} {p : Option ℕ} {evs : List TimerEvent}
    (h : EvTimer.deleteFrom fuel t p = .ok (t', evs)) : SameClock t t' := by
  induction fuel generalizing t p evs with
  | zero =>
      cases p with
      | none =>
          obtain ⟨rfl, -⟩ := Prod.mk.inj (Except.ok.inj h)
          exact ⟨rfl, rfl, rfl⟩
      | some p => exact absurd h nofun
  | succ fuel ih =>
      cases p with
      | none =>
          obtain ⟨rfl, -⟩ := Prod.mk.inj (Except.ok.inj h)
          exact ⟨rfl, rfl, rfl⟩
      | some p =>
          rw [EvTimer.deleteFrom] at h
          obtain ⟨e, -, h⟩ := bind_eq_ok h
          obtain ⟨r, -, h⟩ := bind_eq_ok h
          obtain ⟨r', -, h⟩ := bind_eq_ok h
          obtain ⟨r'', hrest, h⟩ := bind_eq_ok h
          obtain ⟨rfl, -⟩ := Prod.mk.inj (Except.ok.inj h)
          have hsame := ih hrest
          exact ⟨hsame.ticknow, hsame.slotNow, hsame.tickInterval⟩

section Specs

variable {P : ℕ × ℕ → Prop} (hP : ∀ i, InWheels i → P i) {t : EvTimer}

lemma setWheel_spec {w s : ℕ} {p : Option ℕ} (h : P (w, s)) :
    Spec P (SameClock t) (setWheel t w s p) := .tell h fun _ => setWheel_sameClock

lemma wheelAt_then {β : Type} {R : β → Prop} {w s : ℕ} {f : Option ℕ → Accessing β} (h : P (w, s))
    (hf : ∀ p, Spec P R (f p)) : Spec P R (wheelAt t w s >>= f) :=
  (Spec.tell (Q := fun _ => True) h fun _ _ => trivial).bind fun p _ => hf p

include hP

/-- The slot that `which_slot` answers with. -/
lemma whichSlot_then {β : Type} {R : β → Prop} {tick : ℕ} {f : ℕ × ℕ → Accessing β}
    (hf : ∀ i, P i → Spec P R (f i)) : Spec P R (lift (t.whichSlot tick) >>= f) :=
  (Spec.lift fun _ hi => hP _ (whichSlot_inWheels hi)).bind hf

lemma addTimer_spec (mem : TimerMem) (cbfunc data : Option ℕ) (timeout : ℕ) :
    Spec P (fun r => SameClock t r.1) (addTimer t mem cbfunc data timeout) := by
  refine Spec.lift_then fun r => ?_
  obtain ⟨pool, entries, pe⟩ := r
  dsimp only
  by_cases hz : t.tickInterval < timeout ∧ t.tickInterval = 0
  · rw [if_pos hz]
    exact Spec.lift nofun
  · rw [if_neg hz]
    refine Spec.lift_then fun entries => Spec.lift_then fun entryMap => whichSlot_then hP ?_
    intro i hi
    refine wheelAt_then hi fun head => Spec.lift_then fun entries => ?_
    refine (setWheel_spec hi).bind fun t' hsame =>
      Spec.pure ⟨hsame.ticknow, hsame.slotNow, hsame.tickInterval⟩

lemma delTimer_spec (handle : ℤ) :
    Spec P (fun r => SameClock t r.1) (delTimer t handle) := by
  refine Spec.lift_then fun r => ?_
  obtain ⟨entryMap, pe⟩ := r
  cases pe with
  | none => exact Spec.pure ⟨rfl, rfl, rfl⟩
  | some pe =>
      refine Spec.lift_then fun e => whichSlot_then hP fun i hi => wheelAt_then hi fun head => ?_
      cases head with
      | none => exact Spec.pure ⟨rfl, rfl, rfl⟩
      | some pw =>
          refine Spec.lift_then fun head => ?_
          split_ifs with hhandle
          · refine Spec.lift_then fun _ => (setWheel_spec hi).bind fun t' hsame => ?_
            exact Spec.lift_then fun r =>
              Spec.pure ⟨hsame.ticknow, hsame.slotNow, hsame.tickInterval⟩
          · refine Spec.lift fun r hr => ?_
            have hsame := delFrom_sameClock hr
            exact ⟨hsame.ticknow, hsame.slotNow, hsame.tickInterval⟩

lemma call_spec (c : TimerCall) : Spec P (fun r => SameClock t r.1) (call t c) := by
  cases c with
  | add mem cbfunc data timeout =>
      exact (addTimer_spec hP mem cbfunc data timeout).bind fun r hr => Spec.pure hr
  | del handle => exact (delTimer_spec hP handle).bind fun r hr => Spec.pure hr

lemma calls_spec (cs : List TimerCall) : Spec P (fun r => SameClock t r.1) (calls t cs) := by
  induction cs generalizing t with
  | nil => exact Spec.pure ⟨rfl, rfl, rfl⟩
  | cons c cs ih =>
      refine (call_spec hP c).bind fun r hr => ?_
      exact (ih (t := r.1)).bind fun r' hr' => Spec.pure (hr.trans hr')

/-! ## Ticks -/

lemma moveFrom_spec (fuel : ℕ) (p : Option ℕ) : Spec P (SameClock t) (moveFrom fuel t p) := by
  induction fuel generalizing t p with
  | zero =>
      cases p with
      | none => exact Spec.pure ⟨rfl, rfl, rfl⟩
      | some p => exact Spec.lift nofun
  | succ fuel ih =>
      cases p with
      | none => exact Spec.pure ⟨rfl, rfl, rfl⟩
      | some p =>
          refine Spec.lift_then fun e => whichSlot_then hP fun i hi =>
            wheelAt_then hi fun head => ?_
          refine Spec.lift_then fun entries => (setWheel_spec hi).bind fun t' hsame => ?_
          refine ⟨(ih (t := t') e.next).log, fun t'' h'' => ?_⟩
          have hsame' := (ih (t := t') e.next).result t'' h''
          exact ⟨hsame'.ticknow.trans hsame.ticknow, hsame'.slotNow.trans hsame.slotNow,
            hsame'.tickInterval.trans hsame.tickInterval⟩

lemma runFrom_spec (env : ℕ → List TimerCall) (fuel j : ℕ) (p : Option ℕ) :
    Spec P (fun r => SameClock t r.1) (runFrom env fuel j t p) := by
  induction fuel generalizing j t p with
  | zero =>
      cases p with
      | none => exact Spec.pure ⟨rfl, rfl, rfl⟩
      | some p => exact Spec.lift nofun
  | succ fuel ih =>
      cases p with
      | none => exact Spec.pure ⟨rfl, rfl, rfl⟩
      | some p =>
          refine Spec.lift_then fun e => ?_
          cases e.cbfunc with
          | none => exact ih j e.next
          | some cb =>
              refine (calls_spec hP (env j)).bind fun r hr => ?_
              exact (ih (j + 1) (t := r.1) e.next).bind fun r' hr' => Spec.pure (hr.trans hr')

/-- A wheel comes round. -/
lemma updateWheel_carry {i slot : ℕ} {slotNow : ℕ → ℕ} (hround : ¬ t.slotNow i < slotPerWheel)
    (hslot : u32 (t.slotNow (i + 1) + 1) = slot)
    (hpos : slotNow = Function.update (Function.update t.slotNow i 0) (i + 1) slot)
    (hacc : P (i + 1, slot)) :
    Spec P (SameClock { t with slotNow := slotNow }) (updateWheel t i) := by
  rw [updateWheel, if_neg hround]
  dsimp only
  rw [hslot, ← hpos]
  refine wheelAt_then hacc fun p => (moveFrom_spec hP _ p).bind fun t' hsame => ?_
  refine ⟨(setWheel_spec hacc).log, fun t'' h'' => ?_⟩
  exact hsame.trans ((setWheel_spec (P := P) hacc).result t'' h'')

omit hP in
lemma updateWheel_still {i : ℕ} (h : t.slotNow i < slotPerWheel) : updateWheel t i = pure t :=
  if_pos h

/-- The timer once `process_tick` has counted the tick. -/
def counted (t : EvTimer) (n : ℕ) : EvTimer :=
  { t with ticknow := n + 1, slotNow := Function.update t.slotNow 0 (n % 1024 + 1) }

/-- The wheels stand at the tick `n`. -/
def Stands (n : ℕ) (t : EvTimer) : Prop := t.ticknow = n ∧ At t.slotNow n

omit hP in
lemma advance_eq {n : ℕ} (h : Stands n t) (hn : n < 2 ^ 31) :
    advance t = updateWheel (counted t n) 0 >>= fun t => updateWheel t 1 := by
  have h0 : t.slotNow 0 = n % 1024 := h.2.first
  rw [advance, h.1, u32_of_lt (by omega), h0, u32_of_lt (by omega)]
  rfl

omit hP in
/-- No wheel comes round. -/
lemma advance_none {n : ℕ} (h : Stands n t) (hcarry : (n + 1) % 1024 ≠ 0) :
    Spec P (Stands (n + 1)) (updateWheel (counted t n) 0 >>= fun t => updateWheel t 1) := by
  have h1 : t.slotNow 1 = n / 1024 % 1024 := h.2.second
  have h2 : t.slotNow 2 = n / 1048576 := h.2.third
  have hs0 : (counted t n).slotNow 0 < slotPerWheel := by
    show n % 1024 + 1 < 1024
    omega
  have hs1 : (counted t n).slotNow 1 < slotPerWheel := by
    show t.slotNow 1 < 1024
    omega
  rw [updateWheel_still hs0]
  refine (Spec.pure (Q := fun t' => t' = counted t n) rfl).bind fun t' ht' => ?_
  rw [ht', updateWheel_still hs1]
  refine Spec.pure ⟨rfl, ?_⟩
  refine ⟨?_, ?_, ?_⟩ <;> simp only [counted, slotPerWheel] <;> simp [h1, h2] <;> omega

/-- Only the first wheel comes round. -/
lemma advance_first {n : ℕ} (h : Stands n t) (hcarry : (n + 1) % 1024 = 0)
    (hupper : (n + 1) % 2 ^ 20 ≠ 0) :
    Spec P (Stands (n + 1)) (updateWheel (counted t n) 0 >>= fun t => updateWheel t 1) := by
  have h1 : t.slotNow 1 = n / 1024 % 1024 := h.2.second
  have h2 : t.slotNow 2 = n / 1048576 := h.2.third
  have hround : ¬ (counted t n).slotNow 0 < slotPerWheel := by
    show ¬ n % 1024 + 1 < 1024
    omega
  have hslot : u32 ((counted t n).slotNow (0 + 1) + 1) = n / 1024 % 1024 + 1 := by
    show u32 (t.slotNow 1 + 1) = _
    rw [h1, u32_of_lt (by omega)]
  have hlt : n / 1024 % 1024 + 1 < slotPerWheel := by
    rw [slotPerWheel]
    omega
  have hin : P (0 + 1, n / 1024 % 1024 + 1) := hP _ ⟨show 1 < 3 by decide, hlt⟩
  refine (updateWheel_carry hP hround hslot rfl hin).bind fun t' hsame => ?_
  have hs1 : t'.slotNow 1 = n / 1024 % 1024 + 1 := by
    rw [hsame.slotNow]
    rfl
  rw [updateWheel_still (by rwa [hs1])]
  refine Spec.pure ⟨hsame.ticknow, ?_⟩
  refine ⟨?_, ?_, ?_⟩ <;> rw [hsame.slotNow] <;> simp [counted, h2, slotPerWheel] <;> omega

omit hP in
lemma both_round {n : ℕ} (h : Stands n t) (hboth : (n + 1) % 2 ^ 20 = 0) :
    ¬ (counted t n).slotNow 0 < slotPerWheel ∧
      u32 ((counted t n).slotNow (0 + 1) + 1) = slotPerWheel := by
  have h1 : t.slotNow 1 = n / 1024 % 1024 := h.2.second
  constructor
  · show ¬ n % 1024 + 1 < 1024
    omega
  · show u32 (t.slotNow 1 + 1) = 1024
    rw [u32_of_lt (by omega)]
    omega

/-- The first two wheels come round together: the first one. -/
lemma advance_round {n : ℕ} (h : Stands n t) (hn : n < 2 ^ 31) (hboth : (n + 1) % 2 ^ 20 = 0)
    (hacc : P (1, slotPerWheel)) :
    Spec P (fun t' => t'.ticknow = n + 1 ∧ t'.slotNow 0 = 0 ∧ t'.slotNow 1 = slotPerWheel ∧
      u32 (t'.slotNow 2 + 1) = n / 1048576 + 1) (updateWheel (counted t n) 0) := by
  have h2 : t.slotNow 2 = n / 1048576 := h.2.third
  obtain ⟨hround, hslot⟩ := both_round h hboth
  have hspec := updateWheel_carry hP hround hslot rfl hacc
  refine ⟨hspec.log, fun t' h' => ?_⟩
  have hsame := hspec.result t' h'
  refine ⟨hsame.ticknow, ?_, ?_, ?_⟩ <;> rw [hsame.slotNow]
  · rfl
  · rfl
  · show u32 (t.slotNow 2 + 1) = _
    rw [h2, u32_of_lt (by omega)]

/-- **The first two wheels come round together.**  The position of the second is 1024 while its
bucket is read. -/
lemma advance_both {n : ℕ} (h : Stands n t) (hn : n < 2 ^ 31) (hboth : (n + 1) % 2 ^ 20 = 0)
    (hacc : P (1, slotPerWheel)) (hthird : P (2, (n + 1) / 2 ^ 20)) :
    Spec P (Stands (n + 1)) (updateWheel (counted t n) 0 >>= fun t => updateWheel t 1) := by
  refine (advance_round hP h hn hboth hacc).bind fun t' h' => ?_
  obtain ⟨hnow, hs0, hs1, hs2⟩ := h'
  have hin : P (1 + 1, n / 1048576 + 1) := by
    rwa [show n / 1048576 + 1 = (n + 1) / 2 ^ 20 by omega]
  have hspec := updateWheel_carry hP (by rw [hs1]; exact lt_irrefl _) hs2 rfl hin
  refine ⟨hspec.log, fun t'' h'' => ?_⟩
  have hsame := hspec.result t'' h''
  refine ⟨hsame.ticknow.trans hnow, ?_⟩
  refine ⟨?_, ?_, ?_⟩ <;> rw [hsame.slotNow] <;> simp [hs0, slotPerWheel] <;> omega

/-- **The wheels turn** to the next tick.  If the first two come round together, the second one is
accessed behind its end. -/
lemma advance_spec {n : ℕ} (h : Stands n t) (hn : n < 2 ^ 31)
    (hboth : (n + 1) % 2 ^ 20 = 0 → P (1, slotPerWheel) ∧ P (2, (n + 1) / 2 ^ 20)) :
    Spec P (Stands (n + 1)) (advance t) := by
  rw [advance_eq h hn]
  by_cases hcarry : (n + 1) % 1024 = 0
  · by_cases hupper : (n + 1) % 2 ^ 20 = 0
    · obtain ⟨hacc, hthird⟩ := hboth hupper
      exact advance_both hP h hn hupper hacc hthird
    · exact advance_first hP h hcarry hupper
  · exact advance_none h hcarry

omit hP in
/-- **The third wheel is left**, and the word behind it too, at the latest when the other two have
come round together once more. -/
lemma advance_limit (h : Stands (2 ^ 30 + 2 ^ 20 - 1) t) :
    Spec (fun _ => True) (fun _ => False) (advance t) := by
  rw [advance_eq h (by decide)]
  refine (advance_round (fun _ _ => trivial) h (by decide) (by decide) trivial).bind fun t' h' => ?_
  obtain ⟨-, -, hs1, hs2⟩ := h'
  rw [updateWheel, if_neg (by rw [hs1]; exact lt_irrefl _)]
  dsimp only
  rw [hs2]
  refine (Spec.tell (Q := fun _ => False) trivial fun p hp => ?_).bind fun p hp => hp.elim
  cases hp

omit hP in
/-- That access is made. -/
lemma advance_outside {n : ℕ} (h : Stands n t) (hn : n + 1 < 2 ^ 30)
    (hboth : (n + 1) % 2 ^ 20 = 0) : (1, slotPerWheel) ∈ (advance t).log := by
  obtain ⟨hround, hslot⟩ := both_round h hboth
  rw [advance_eq h (by omega)]
  refine mem_log_bind ?_ _
  rw [updateWheel, if_neg hround]
  dsimp only
  rw [hslot]
  exact mem_log_bind (List.mem_singleton.mpr rfl) _

/-- **A tick.** -/
lemma processTick_spec {n : ℕ} (h : Stands n t) (hn : n < 2 ^ 31)
    (hboth : (n + 1) % 2 ^ 20 = 0 → P (1, slotPerWheel) ∧ P (2, (n + 1) / 2 ^ 20))
    (env : ℕ → List TimerCall) :
    Spec P (fun r => Stands (n + 1) r.1) (processTick t env) := by
  refine (advance_spec hP h hn hboth).bind fun t' h' => ?_
  have hdue : P (0, t'.slotNow 0) := by
    refine hP _ ⟨show 0 < 3 by decide, ?_⟩
    rw [h'.2.first]
    exact Nat.mod_lt _ (by decide)
  refine wheelAt_then hdue fun head => ?_
  split_ifs
  · exact Spec.pure h'
  · refine (runFrom_spec hP env _ 0 head).bind fun r hr => ?_
    refine (Spec.lift fun r' hr' => deleteFrom_sameClock hr').bind fun r' hr' => ?_
    have hsame := hr.trans hr'
    have hdue' : P (0, r'.1.slotNow 0) := by rwa [hsame.slotNow]
    refine (setWheel_spec hdue').bind fun t'' hsame' => Spec.pure ?_
    have hall := hsame.trans hsame'
    exact ⟨hall.ticknow.trans h'.1, hall.slotNow.symm ▸ h'.2⟩

end Specs

end Logged

/-! ## Runs -/

/-- What is done with a timer: a call, or a tick, whose callbacks make calls. -/
inductive TimerStep where
  | call (c : TimerCall)
  | tick (env : ℕ → List TimerCall)

namespace TimerStep

/-- The step made. -/
def run (t : EvTimer) : TimerStep → Except Fault (EvTimer × List TimerEvent)
  | .call c => t.call c
  | .tick env => t.processTick env

/-- The elements of the wheels it accesses, until it returns or fails. -/
def accesses (t : EvTimer) : TimerStep → List (ℕ × ℕ)
  | .call c => (Logged.call t c).log
  | .tick env => (Logged.processTick t env).log

/-- `ticknow_` after the step. -/
def now (t : EvTimer) : TimerStep → ℕ
  | .call _ => t.ticknow
  | .tick _ => t.ticknow + 1

end TimerStep

/-- **The runs** of a timer from its constructor on, with the accesses made. -/
inductive Accessed (os : Libc) (buf tickInterval : ℕ) : EvTimer → List (ℕ × ℕ) → Prop where
  | new {t : EvTimer} : EvTimer.new os buf tickInterval = .ok t →
      Accessed os buf tickInterval t []
  | step {t t' : EvTimer} {log : List (ℕ × ℕ)} {evs : List TimerEvent} (st : TimerStep) :
      Accessed os buf tickInterval t log → st.now t < 2 ^ 30 → st.run t = .ok (t', evs) →
      Accessed os buf tickInterval t' (log ++ st.accesses t)

section Runs

open Logged

variable {os : Libc} {buf tickInterval n : ℕ} {t t' : EvTimer} {log : List (ℕ × ℕ)}
  {evs : List TimerEvent} {st : TimerStep}

lemma stands_new (h : EvTimer.new os buf tickInterval = .ok t) : Stands 0 t := by
  rw [EvTimer.new] at h
  obtain ⟨entryMap, -, h⟩ := bind_eq_ok h
  obtain ⟨r, -, h⟩ := bind_eq_ok h
  obtain rfl := Except.ok.inj h
  exact ⟨rfl, rfl, rfl, rfl⟩

/-- A call does not turn the wheels. -/
lemma Logged.Stands.call {c : TimerCall} (h : Stands n t) (hcall : t.call c = .ok (t', evs)) :
    Stands n t' := by
  rw [← call_result] at hcall
  have hsame := (call_spec (P := fun _ => True) (fun _ _ => trivial) c).result _ hcall
  exact ⟨hsame.ticknow.trans h.1, hsame.slotNow.symm ▸ h.2⟩

/-- **A tick** that comes to its end turns the wheels to the next one.  There is a last one. -/
lemma Logged.Stands.tick {env : ℕ → List TimerCall} (h : Stands n t) (hn : n < 2 ^ 30 + 2 ^ 20)
    (htick : t.processTick env = .ok (t', evs)) : n + 1 < 2 ^ 30 + 2 ^ 20 ∧ Stands (n + 1) t' := by
  rw [← processTick_result] at htick
  have hstands := (processTick_spec (P := fun _ => True) (fun _ _ => trivial) h (by omega)
    (fun _ => ⟨trivial, trivial⟩) env).result _ htick
  refine ⟨?_, hstands⟩
  by_contra hlast
  obtain rfl : n = 2 ^ 30 + 2 ^ 20 - 1 := by omega
  have hnone : Traced.Spec (fun _ => True) (fun _ => False) (Logged.processTick t env) :=
    (advance_limit h).bind fun _ hfalse => hfalse.elim
  exact hnone.result _ htick

/-- **One step** turns the wheels to its tick. -/
lemma stands_step (h : Stands n t) (hlim : st.now t < 2 ^ 30) (hrun : st.run t = .ok (t', evs)) :
    Stands (st.now t) t' := by
  have hnow := h.1
  cases st with
  | call c =>
      rw [TimerStep.now, hnow]
      exact h.call hrun
  | tick env =>
      rw [TimerStep.now, hnow] at hlim ⊢
      exact (h.tick (by omega) hrun).2

/-- Below `2^20` ticks a step stays inside the wheels. -/
lemma step_inside (h : Stands n t) (hnow : st.now t < 2 ^ 20) :
    ∀ i ∈ st.accesses t, InWheels i := by
  have hsame : ∀ i, InWheels i → InWheels i := fun _ hi => hi
  cases st with
  | call c => exact (call_spec hsame c).log
  | tick env =>
      rw [TimerStep.now, h.1] at hnow
      refine (processTick_spec hsame h (by omega) ?_ env).log
      intro hboth
      omega

/-- The tick `2^20` does not. -/
lemma step_outside (h : Stands n t) (hn : n < 2 ^ 20) (hlim : st.now t < 2 ^ 30)
    (hnow : ¬ st.now t < 2 ^ 20) : (1, slotPerWheel) ∈ st.accesses t := by
  cases st with
  | call c =>
      rw [TimerStep.now, h.1] at hnow
      exact absurd hn hnow
  | tick env =>
      rw [TimerStep.now, h.1] at hnow hlim
      exact Traced.mem_log_bind (advance_outside h hlim (by omega)) _

/-- The accesses so far, and those of one more step. -/
lemma inside_append (h : Stands n t) (hlim : st.now t < 2 ^ 30)
    (hlog : (∀ i ∈ log, InWheels i) ↔ n < 2 ^ 20) :
    (∀ i ∈ log ++ st.accesses t, InWheels i) ↔ st.now t < 2 ^ 20 := by
  constructor
  · intro hall
    have hn := hlog.mp fun i hi => hall i (List.mem_append_left _ hi)
    by_contra hnow
    have hin := hall _ (List.mem_append_right _ (step_outside h hn hlim hnow))
    exact lt_irrefl _ hin.2
  · intro hnow i hi
    have hn : n ≤ st.now t := by
      cases st with
      | call c => exact Nat.le_of_eq h.1.symm
      | tick env => exact h.1 ▸ Nat.le_succ _
    rcases List.mem_append.mp hi with hi | hi
    · exact hlog.mpr (Nat.lt_of_le_of_lt hn hnow) i hi
    · exact step_inside h hnow i hi

/-- **The invariant of the runs.** -/
lemma Accessed.inv (h : Accessed os buf tickInterval t log) :
    ∃ n, Stands n t ∧ ((∀ i ∈ log, InWheels i) ↔ n < 2 ^ 20) := by
  induction h with
  | new hnew => exact ⟨0, stands_new hnew, by simp⟩
  | step st _ hlim hrun ih =>
      obtain ⟨n, hstands, hlog⟩ := ih
      exact ⟨_, stands_step hstands hlim hrun, inside_append hstands hlim hlog⟩

/-- **The wheels are left with the tick `2^20`.**  A run, with whatever step it takes next and
whether or not that step returns, has accessed only elements of the wheels if and only if
`ticknow_` has stayed below `2^20`. -/
theorem in_wheels_iff (h : Accessed os buf tickInterval t log) (st : TimerStep)
    (hlim : st.now t < 2 ^ 30) :
    (∀ i ∈ log ++ st.accesses t, i.1 < 3 ∧ i.2 < 1024) ↔ st.now t < 2 ^ 20 := by
  obtain ⟨n, hstands, hlog⟩ := h.inv
  exact inside_append hstands hlim hlog

/-- The first tick of a new timer. -/
theorem in_wheels_first : ∃ t, Accessed zeroLibc 4096 1000 t [] ∧
    ∀ i ∈ (TimerStep.tick fun _ => []).accesses t, i.1 < 3 ∧ i.2 < 1024 := by
  have h₀ : Accessed zeroLibc 4096 1000 _ [] := .new rfl
  exact ⟨_, h₀, (in_wheels_iff h₀ (.tick fun _ => []) (by decide)).mpr (by decide)⟩

/-- A timer that only ticks. -/
lemma idle_run (n : ℕ) (hn : n < 2 ^ 30) :
    ∃ t tr log, Run NoDel zeroLibc 4096 1000 t tr ∧ Accessed zeroLibc 4096 1000 t log ∧
      t.ticknow = n := by
  induction n with
  | zero => exact ⟨_, _, _, .new rfl, .new rfl, rfl⟩
  | succ n ih =>
      obtain ⟨t, tr, log, hrun, hacc, hnow⟩ := ih (by omega)
      have hok : TickOk NoDel t fun _ => [] :=
        fun t' head _ _ => RunOk.of_calls fun _ _ _ _ => trivial
      obtain ⟨t', evs, htick, hnow'⟩ :=
        (hrun.progress noDel_sparing zeroLibc_total (by decide)).2 _ hok (by omega)
      have hlim : (TimerStep.tick fun _ => []).now t < 2 ^ 30 := by
        rw [TimerStep.now, hnow]
        exact hn
      exact ⟨t', _, _, .tick _ hrun hok htick, .step _ hacc hlim htick, by rw [hnow', hnow]⟩

/-- **The tick `2^20` of a timer that only ticks** accesses `wheel_[1][1024]`. -/
theorem in_wheels_fails : ∃ t log, Accessed zeroLibc 4096 1000 t log ∧
    t.ticknow + 1 = 2 ^ 20 ∧ (1, 1024) ∈ (TimerStep.tick fun _ => []).accesses t := by
  obtain ⟨t, tr, log, -, hacc, hnow⟩ := idle_run (2 ^ 20 - 1) (by decide)
  obtain ⟨n, hstands, -⟩ := hacc.inv
  have hn : n = 2 ^ 20 - 1 := hstands.1.symm.trans hnow
  refine ⟨t, log, hacc, by omega, step_outside hstands (by omega) ?_ ?_⟩
  · rw [TimerStep.now, hnow]
    decide
  · rw [TimerStep.now, hnow]
    decide

end Runs

end EvTimer

end Axon
