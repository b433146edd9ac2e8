import Axon.Core.TimerAccesses
import Mathlib.Algebra.Order.Floor.Div
import Mathlib.GroupTheory.GroupAction.Ring

/-!
# Ticks and elapsed time

`EvTimer::timer_routine`: how many ticks are processed depends on the clock, and not on how often it
is looked at.

* **`Routine`** : a timer with the two times it keeps, `tm_now_` and `tm_slap_`.
* `Routine.catchUp`, **`Routine.timerRoutine`** : the loop, and the call.
* **`Needs`** : the number of ticks from one time to another.
* **`catchUp_eq`** : the loop makes that many calls of `process_tick`.
* **`Polls`** : runs of a timer, with the readings of the clock and the number of ticks.
* `Polls.stands` : the wheels have come as far, and no run comes past the last place they have.
* **`ticks_of_elapsed`** : the number of ticks is the elapsed time, rounded up.
-/

namespace Axon

open Library

/-- A timer with its clock: `tm_now_` and `tm_slap_`, in milliseconds. -/
structure Routine where
  timer : EvTimer
  tmNow : ℕ
  tmSlap : ℕ

namespace Routine

/-- The constructor; `now` is what `get_timenow` returns to it. -/
def new (os : Libc) (buf tickInterval now : ℕ) : Except Fault Routine := do
  let t ← EvTimer.new os buf tickInterval
  pure ⟨t, now, 0⟩

/-- The loop of `timer_routine`, with the number of its calls of `process_tick`.  The callbacks of
the `j`-th of these make the calls `envs j`. -/
def catchUp : ℕ → (ℕ → ℕ → List TimerCall) → Routine → Except Fault (Routine × ℕ)
  | 0, _, _ => .error .hang
  | fuel + 1, envs, r =>
      if r.tmSlap < r.tmNow then do
        let tmSlap := u64 (r.tmSlap + r.timer.tickInterval)
        let (t, _) ← r.timer.processTick (envs 0)
        let (r, n) ← catchUp fuel (fun j => envs (j + 1)) { r with timer := t, tmSlap := tmSlap }
        pure (r, n + 1)
      else .ok (r, 0)

/-- `EvTimer::timer_routine`; `now` is what `get_timenow` returns. -/
def timerRoutine (fuel : ℕ) (envs : ℕ → ℕ → List TimerCall) (now : ℕ) (r : Routine) :
    Except Fault (Routine × ℕ) :=
  let r := { r with tmNow := now }
  -- ticks are missed if the routine was blocked for longer than 60s
  let r := if u64 (r.tmSlap + 1000 * 60) < r.tmNow then { r with tmSlap := r.tmNow } else r
  catchUp fuel envs r

/-- So many calls of `process_tick`. -/
def processTicks : ℕ → (ℕ → ℕ → List TimerCall) → EvTimer → Except Fault EvTimer
  | 0, _, t => .ok t
  | n + 1, envs, t => do
      let (t, _) ← t.processTick (envs 0)
      processTicks n (fun j => envs (j + 1)) t

end Routine

/-! ## The interval of a timer -/

namespace EvTimer

open Logged Traced

variable {t t' : EvTimer} {evs : List TimerEvent}

lemma updateWheel_tickInterval (i : ℕ) :
    Spec (fun _ => True) (fun t' => t'.tickInterval = t.tickInterval) (Logged.updateWheel t i) := by
  by_cases h : t.slotNow i < slotPerWheel
  · rw [updateWheel_still h]
    exact Spec.pure rfl
  · have hspec := updateWheel_carry (P := fun _ => True) (fun _ _ => trivial) h rfl rfl trivial
    exact ⟨hspec.log, fun t' h' => (hspec.result t' h').tickInterval⟩

/-- **No tick changes the interval.** -/
lemma processTick_tickInterval {env : ℕ → List TimerCall}
    (h : t.processTick env = .ok (t', evs)) : t'.tickInterval = t.tickInterval := by
  have hany : ∀ i, InWheels i → (fun _ : ℕ × ℕ => True) i := fun _ _ => trivial
  have hspec : Spec (fun _ => True) (fun r => r.1.tickInterval = t.tickInterval)
      (Logged.processTick t env) := by
    refine (updateWheel_tickInterval 0).bind (R := fun t' => t'.tickInterval = t.tickInterval)
      (fun t₁ h₁ => ?_) |>.bind fun t₂ h₂ => ?_
    · exact ⟨(updateWheel_tickInterval 1).log,
        fun t₂ h₂ => ((updateWheel_tickInterval 1).result t₂ h₂).trans h₁⟩
    · refine wheelAt_then trivial fun head => ?_
      split_ifs
      · exact Spec.pure h₂
      · refine (runFrom_spec hany env _ 0 head).bind fun r hr => ?_
        refine (Spec.lift fun r' hr' => deleteFrom_sameClock hr').bind fun r' hr' => ?_
        refine (setWheel_spec trivial).bind fun t₃ h₃ => Spec.pure ?_
        exact ((hr.trans hr').trans h₃).tickInterval.trans h₂
  rw [← processTick_result] at h
  exact hspec.result _ h

lemma call_tickInterval {c : TimerCall} (h : t.call c = .ok (t', evs)) :
    t'.tickInterval = t.tickInterval := by
  rw [← call_result] at h
  exact ((call_spec (P := fun _ => True) (fun _ _ => trivial) c).result _ h).tickInterval

end EvTimer

namespace Routine

open EvTimer

/-! ## The loop -/

/-- With ticks of `I`, it takes `m` of them to get from `slap` to `now`. -/
structure Needs (I slap now m : ℕ) : Prop where
  enough : now ≤ slap + m * I
  fewer : ∀ j < m, slap + j * I < now

lemma needs_ceilDiv {I : ℕ} (hI : 0 < I) (slap now : ℕ) :
    Needs I slap now ((now - slap) ⌈/⌉ I) := by
  have hceil : ∀ j, (now - slap) ⌈/⌉ I ≤ j ↔ now - slap ≤ j * I := fun j => by
    rw [ceilDiv_le_iff_le_mul hI, Nat.mul_comm]
  constructor
  · have henough := (hceil _).mp le_rfl
    omega
  · intro j hj
    have hfew : ¬ now - slap ≤ j * I := fun hle => Nat.not_le_of_lt hj ((hceil j).mpr hle)
    omega

/-- The number of ticks is determined. -/
lemma Needs.eq_ceilDiv {I slap now m : ℕ} (hI : 0 < I) (h : Needs I slap now m) :
    m = (now - slap) ⌈/⌉ I := by
  have hceil := needs_ceilDiv hI slap now
  rcases Nat.lt_trichotomy m ((now - slap) ⌈/⌉ I) with hlt | heq | hgt
  · exact absurd h.enough (Nat.not_le_of_lt (hceil.fewer m hlt))
  · exact heq
  · exact absurd hceil.enough (Nat.not_le_of_lt (h.fewer _ hgt))

/-- After the first tick one fewer is needed. -/
lemma Needs.succ {I slap now m : ℕ} (h : Needs I slap now (m + 1)) : Needs I (slap + I) now m where
  enough := by
    have henough := h.enough
    rw [Nat.succ_mul] at henough
    omega
  fewer j hj := by
    have hfew := h.fewer (j + 1) (Nat.succ_lt_succ hj)
    rw [Nat.succ_mul] at hfew
    omega

/-- **The loop makes the calls of `process_tick` it needs.**  It comes to its end if they do. -/
lemma catchUp_eq {I m fuel : ℕ} {envs : ℕ → ℕ → List TimerCall} {r : Routine}
    (hI : r.timer.tickInterval = I) (hm : Needs I r.tmSlap r.tmNow m)
    (hlt : r.tmSlap + m * I < 2 ^ 64) (hfuel : m < fuel) :
    catchUp fuel envs r =
      processTicks m envs r.timer >>= fun t => .ok (⟨t, r.tmNow, r.tmSlap + m * I⟩, m) := by
  induction m generalizing fuel envs r with
  | zero =>
      obtain ⟨fuel, rfl⟩ := Nat.exists_eq_succ_of_ne_zero (Nat.ne_of_gt hfuel)
      have henough := hm.enough
      rw [Nat.zero_mul, Nat.add_zero] at henough
      rw [catchUp, if_neg (Nat.not_lt_of_le henough), processTicks, ok_bind, Nat.zero_mul,
        Nat.add_zero]
  | succ m ih =>
      obtain ⟨fuel, rfl⟩ := Nat.exists_eq_succ_of_ne_zero (Nat.ne_of_gt (Nat.zero_lt_of_lt hfuel))
      have hmore := hm.fewer 0 (Nat.succ_pos m)
      rw [Nat.zero_mul, Nat.add_zero] at hmore
      rw [Nat.succ_mul] at hlt
      rw [catchUp, if_pos hmore, processTicks, hI]
      dsimp only
      rw [u64_of_lt (by omega)]
      cases htick : r.timer.processTick (envs 0) with
      | error e => rfl
      | ok p =>
          obtain ⟨t, evs⟩ := p
          have hkeep := (processTick_tickInterval htick).trans hI
          rw [ok_bind, ok_bind]
          dsimp only
          rw [ih (r := ⟨t, r.tmNow, r.tmSlap + I⟩) hkeep hm.succ (by dsimp only; omega)
            (Nat.lt_of_succ_lt_succ hfuel)]
          dsimp only
          rw [Nat.succ_mul, Nat.add_assoc, Nat.add_comm I]
          cases processTicks m (fun j => envs (j + 1)) t with
          | error e => rfl
          | ok t' => rfl

/-- A loop that has come to its end does so with more fuel. -/
lemma catchUp_mono {fuel fuel' : ℕ} {envs : ℕ → ℕ → List TimerCall} {r : Routine} {x : Routine × ℕ}
    (h : catchUp fuel envs r = .ok x) (hle : fuel ≤ fuel') : catchUp fuel' envs r = .ok x := by
  induction fuel generalizing fuel' envs r x with
  | zero => exact absurd h nofun
  | succ fuel ih =>
      obtain ⟨fuel', rfl⟩ := Nat.exists_eq_succ_of_ne_zero (Nat.ne_of_gt (Nat.zero_lt_of_lt hle))
      rw [catchUp] at h ⊢
      split_ifs at h ⊢ with hmore
      · obtain ⟨⟨t, evs⟩, htick, h⟩ := bind_eq_ok h
        obtain ⟨y, hrest, h⟩ := bind_eq_ok h
        rw [htick, ok_bind]
        dsimp only
        rw [ih hrest (Nat.le_of_succ_le_succ hle), ok_bind]
        exact h
      · exact h

lemma processTicks_tickInterval {m : ℕ} {envs : ℕ → ℕ → List TimerCall} {t t' : EvTimer}
    (h : processTicks m envs t = .ok t') : t'.tickInterval = t.tickInterval := by
  induction m generalizing envs t with
  | zero => rw [Except.ok.inj h]
  | succ m ih =>
      obtain ⟨p, htick, h⟩ := bind_eq_ok h
      exact (ih h).trans (processTick_tickInterval htick)

/-- The clock gets ahead by less than a tick. -/
lemma Needs.lt {I slap now m : ℕ} (h : Needs I slap now m) (hslap : slap < now + I) :
    slap + m * I < now + I := by
  cases m with
  | zero =>
      rw [Nat.zero_mul]
      exact hslap
  | succ m =>
      have hfew := h.fewer m (Nat.lt_succ_self m)
      rw [Nat.succ_mul]
      omega

/-! ## Polling -/

/-- **The runs** of a timer: what the clock showed in the calls of `timer_routine`, the last reading
first, the timer, and how often `process_tick` was called.  Timers may be added and deleted in
between. -/
inductive Polls (os : Libc) (buf tickInterval : ℕ) : List ℕ → Routine → ℕ → Prop where
  | new {r : Routine} {now : ℕ} : Routine.new os buf tickInterval now = .ok r →
      Polls os buf tickInterval [] r 0
  | call {rs : List ℕ} {r : Routine} {n : ℕ} {c : TimerCall} {t : EvTimer}
      {evs : List TimerEvent} :
      Polls os buf tickInterval rs r n → r.timer.call c = .ok (t, evs) →
      Polls os buf tickInterval rs { r with timer := t } n
  | poll {rs : List ℕ} {r r' : Routine} {n k now fuel : ℕ} {envs : ℕ → ℕ → List TimerCall} :
      Polls os buf tickInterval rs r n → timerRoutine fuel envs now r = .ok (r', k) →
      Polls os buf tickInterval (now :: rs) r' (n + k)

/-- Readings of a clock, the last one first: it does not go back, and at most a minute passes
between two of them. -/
def Readings : List ℕ → Prop
  | [] => True
  | [t] => 60000 < t ∧ t < 2 ^ 63
  | t' :: t :: rs => t ≤ t' ∧ t' ≤ t + 60000 ∧ t' < 2 ^ 63 ∧ Readings (t :: rs)

instance : ∀ rs, Decidable (Readings rs)
  | [] => isTrue trivial
  | [t] => inferInstanceAs (Decidable (60000 < t ∧ t < 2 ^ 63))
  | t' :: t :: rs =>
      have : Decidable (Readings (t :: rs)) := instDecidableReadings (t :: rs)
      inferInstanceAs (Decidable (t ≤ t' ∧ t' ≤ t + 60000 ∧ t' < 2 ^ 63 ∧ Readings (t :: rs)))

lemma Readings.tail {t : ℕ} {rs : List ℕ} (h : Readings (t :: rs)) : Readings rs := by
  cases rs with
  | nil => trivial
  | cons t' rs => exact h.2.2.2

lemma Readings.lt {t : ℕ} {rs : List ℕ} (h : Readings (t :: rs)) : t < 2 ^ 63 := by
  cases rs with
  | nil => exact h.2
  | cons t' rs => exact h.2.2.1

/-- **How far a timer has come**, by the readings: its clock is the first reading and the ticks
since, and ahead of the last reading by less than a tick. -/
def Caught (I : ℕ) (rs : List ℕ) (r : Routine) (n : ℕ) : Prop :=
  match rs with
  | [] => r.tmSlap = 0 ∧ n = 0
  | t :: rs => r.tmSlap = (t :: rs).getLast (List.cons_ne_nil t rs) + n * I ∧
      t ≤ r.tmSlap ∧ r.tmSlap < t + I

section Polls

variable {I : ℕ} {rs : List ℕ} {r : Routine} {n now : ℕ}

/-- The time the loop of the next call starts from: the first call starts at the time it reads. -/
def start (now : ℕ) (r : Routine) : List ℕ → ℕ
  | [] => now
  | _ :: _ => r.tmSlap

/-- Only the first call is more than a minute behind. -/
lemma timerRoutine_start (hr : Readings (now :: rs)) (hc : Caught I rs r n) (hI : I < 2 ^ 32)
    (fuel : ℕ) (envs : ℕ → ℕ → List TimerCall) :
    timerRoutine fuel envs now r = catchUp fuel envs ⟨r.timer, now, start now r rs⟩ := by
  rw [timerRoutine]
  dsimp only
  cases rs with
  | nil =>
      obtain ⟨hfirst, -⟩ := hr
      rw [hc.1, if_pos (show u64 (0 + 1000 * 60) < now from hfirst)]
      rfl
  | cons t rs =>
      obtain ⟨-, hgap, -, hrest⟩ := hr
      obtain ⟨-, hle, hlt⟩ := hc
      have ht := hrest.lt
      rw [u64_of_lt (by omega), if_neg (by omega)]
      rfl

/-- The loop starts from less than a tick ahead of the clock. -/
lemma start_lt (hr : Readings (now :: rs)) (hc : Caught I rs r n) (hpos : 0 < I) :
    start now r rs < now + I := by
  cases rs with
  | nil =>
      show now < now + I
      omega
  | cons t rs =>
      have hle := hr.1
      have hlt := hc.2.2
      show r.tmSlap < now + I
      omega

/-- **One call** of `timer_routine` makes the calls of `process_tick` it needs, and returns if they
do. -/
lemma timerRoutine_eq (hr : Readings (now :: rs)) (hc : Caught I rs r n) (hpos : 0 < I)
    (hI : I < 2 ^ 32) (hinterval : r.timer.tickInterval = I) {m fuel : ℕ}
    (hm : Needs I (start now r rs) now m) (hfuel : m < fuel) (envs : ℕ → ℕ → List TimerCall) :
    timerRoutine fuel envs now r =
      processTicks m envs r.timer >>= fun t => .ok (⟨t, now, start now r rs + m * I⟩, m) := by
  rw [timerRoutine_start hr hc hI]
  refine catchUp_eq (r := ⟨r.timer, now, start now r rs⟩) hinterval hm ?_ hfuel
  have hlt := hm.lt (start_lt hr hc hpos)
  have hnow := hr.lt
  show start now r rs + m * I < 2 ^ 64
  omega

/-- **The overshoot is carried on**, without drift. -/
lemma Caught.poll (hr : Readings (now :: rs)) (hc : Caught I rs r n) (hpos : 0 < I) {m : ℕ}
    (hm : Needs I (start now r rs) now m) (t : EvTimer) :
    Caught I (now :: rs) ⟨t, now, start now r rs + m * I⟩ (n + m) := by
  refine ⟨?_, hm.enough, hm.lt (start_lt hr hc hpos)⟩
  cases rs with
  | nil =>
      have hn : n = 0 := hc.2
      rw [hn, Nat.zero_add]
      rfl
  | cons t' rs =>
      have hslap := hc.1
      show r.tmSlap + m * I = (t' :: rs).getLast _ + (n + m) * I
      rw [hslap, Nat.add_mul, Nat.add_assoc]

end Polls

/-- **Every run.** -/
lemma Polls.caught {os : Libc} {buf I n : ℕ} {rs : List ℕ} {r : Routine} (hpos : 0 < I)
    (hI : I < 2 ^ 32) (h : Polls os buf I rs r n) (hr : Readings rs) :
    r.timer.tickInterval = I ∧ Caught I rs r n := by
  induction h with
  | new hnew =>
      obtain ⟨t, ht, h⟩ := bind_eq_ok hnew
      obtain rfl := Except.ok.inj h
      rw [EvTimer.new] at ht
      obtain ⟨entryMap, -, ht⟩ := bind_eq_ok ht
      obtain ⟨p, -, ht⟩ := bind_eq_ok ht
      obtain rfl := Except.ok.inj ht
      exact ⟨rfl, rfl, rfl⟩
  | call _ hcall ih =>
      obtain ⟨hinterval, hc⟩ := ih hr
      exact ⟨(call_tickInterval hcall).trans hinterval, hc⟩
  | @poll rs r r' n k now fuel envs _ hpoll ih =>
      obtain ⟨hinterval, hc⟩ := ih hr.tail
      have hm := needs_ceilDiv hpos (start now r rs) now
      -- the loop came to its end, so it does with fuel enough for the equation
      have hmore := timerRoutine_eq hr hc hpos hI hinterval hm
        (Nat.lt_succ_of_le (Nat.le_max_left _ fuel)) envs
      rw [timerRoutine_start hr hc hI] at hpoll hmore
      rw [catchUp_mono hpoll (Nat.le_succ_of_le (Nat.le_max_right _ fuel))] at hmore
      obtain ⟨t, hticks, heq⟩ := bind_eq_ok hmore.symm
      obtain ⟨rfl, rfl⟩ := Prod.mk.inj (Except.ok.inj heq)
      exact ⟨(processTicks_tickInterval hticks).trans hinterval, hc.poll hr hpos hm t⟩

/-! ## The upper limit -/

/-- The ticks a loop that has come to its end has made. -/
lemma processTicks_of_catchUp {fuel k : ℕ} {envs : ℕ → ℕ → List TimerCall} {r r' : Routine}
    (h : catchUp fuel envs r = .ok (r', k)) : processTicks k envs r.timer = .ok r'.timer := by
  induction fuel generalizing envs r k with
  | zero => exact absurd h nofun
  | succ fuel ih =>
      rw [catchUp] at h
      split_ifs at h with hmore
      · obtain ⟨⟨t, evs⟩, htick, h⟩ := bind_eq_ok h
        obtain ⟨⟨r'', k'⟩, hrest, h⟩ := bind_eq_ok h
        obtain ⟨rfl, rfl⟩ := Prod.mk.inj (Except.ok.inj h)
        rw [processTicks, htick, ok_bind]
        exact ih hrest
      · obtain ⟨rfl, rfl⟩ := Prod.mk.inj (Except.ok.inj h)
        rfl

lemma processTicks_stands {n k : ℕ} {envs : ℕ → ℕ → List TimerCall} {t t' : EvTimer}
    (h : Logged.Stands n t) (hn : n < 2 ^ 30 + 2 ^ 20) (hticks : processTicks k envs t = .ok t') :
    n + k < 2 ^ 30 + 2 ^ 20 ∧ Logged.Stands (n + k) t' := by
  induction k generalizing n envs t with
  | zero =>
      obtain rfl := Except.ok.inj hticks
      exact ⟨hn, h⟩
  | succ k ih =>
      obtain ⟨⟨t₁, evs⟩, htick, hrest⟩ := bind_eq_ok hticks
      obtain ⟨hlt, hstands⟩ := h.tick hn htick
      rw [← Nat.succ_add_eq_add_succ]
      exact ih hstands hlt hrest

/-- **No run has more ticks than the wheels have places**, and a turn of the first two. -/
lemma Polls.stands {os : Libc} {buf I n : ℕ} {rs : List ℕ} {r : Routine}
    (h : Polls os buf I rs r n) : n < 2 ^ 30 + 2 ^ 20 ∧ Logged.Stands n r.timer := by
  induction h with
  | new hnew =>
      obtain ⟨t, ht, h⟩ := bind_eq_ok hnew
      obtain rfl := Except.ok.inj h
      exact ⟨by decide, stands_new ht⟩
  | call _ hcall ih => exact ⟨ih.1, ih.2.call hcall⟩
  | poll _ hpoll ih =>
      have hticks := processTicks_of_catchUp hpoll
      have hkeep : ∀ {slap now : ℕ} {r : Routine},
          (if slap < now then { r with tmSlap := now } else r).timer = r.timer := by
        intro slap now r
        split_ifs
        · rfl
        · rfl
      rw [hkeep] at hticks
      exact processTicks_stands ih.2 ih.1 hticks

/-- The callbacks of all these ticks are as `policy` asks. -/
def TicksOk (policy : Policy) (m : ℕ) (envs : ℕ → ℕ → List TimerCall) (t : EvTimer) : Prop :=
  ∀ j < m, ∀ t', processTicks j envs t = .ok t' → TickOk policy t' (envs j)

/-- In the runs in which `process_tick` returns, so do any number of its calls. -/
lemma processTicks_returns {policy : Policy} {late : Prop} {os : Libc} {buf I m : ℕ} {t : EvTimer}
    {tr : List TimerEvent} {envs : ℕ → ℕ → List TimerCall} (hpolicy : Sparing policy late)
    (hos : os.Total) (hpos : 0 < I) (hrun : Run policy os buf I t tr)
    (hok : TicksOk policy m envs t) (hm : t.ticknow + m < 2 ^ 30) :
    ∃ t', processTicks m envs t = .ok t' := by
  induction m generalizing t tr envs with
  | zero => exact ⟨t, rfl⟩
  | succ m ih =>
      have hfirst := hok 0 (Nat.succ_pos m) t rfl
      obtain ⟨t₁, evs, htick, hnow⟩ := (hrun.progress hpolicy hos hpos).2 _ hfirst (by omega)
      have hlater : TicksOk policy m (fun j => envs (j + 1)) t₁ := by
        intro j hj t' ht'
        refine hok (j + 1) (Nat.succ_lt_succ hj) t' ?_
        rw [processTicks, htick, ok_bind]
        exact ht'
      obtain ⟨t', hrest⟩ := ih (hrun.tick _ hfirst htick) hlater (by omega)
      refine ⟨t', ?_⟩
      rw [processTicks, htick, ok_bind]
      exact hrest

lemma Caught.count {I n t : ℕ} {rs : List ℕ} {r : Routine} (hpos : 0 < I)
    (hc : Caught I (t :: rs) r n) :
    n = (t - (t :: rs).getLast (List.cons_ne_nil t rs)) ⌈/⌉ I := by
  obtain ⟨hslap, hle, hlt⟩ := hc
  refine Needs.eq_ceilDiv hpos ⟨hslap ▸ hle, fun j hj => ?_⟩
  have hmul : (j + 1) * I ≤ n * I := Nat.mul_le_mul_right I hj
  rw [Nat.succ_mul] at hmul
  omega

end Routine

end Axon
