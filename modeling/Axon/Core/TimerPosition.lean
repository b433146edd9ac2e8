import Axon.Core.TimerAccesses

/-!
# The position of the wheels

`slot_now_` is maintained by the carry loop of `process_tick`, apart from `ticknow_`.  The
constructor sets `ticknow_` and leaves `slot_now_` as the memory was.

* **`EvTimer.construct`** : the constructor over memory that holds anything.
* **`EvTimer.Ticked`** : the runs from there, with the number of ticks.
* **`EvTimer.position_iff`** : the wheels stand at the time in all of them exactly when that memory
  was zero.
-/

namespace Axon

open Library

namespace EvTimer

open Logged

/-- `slot_now_` as the memory of the object holds it. -/
def slots (memory : Fin totalWheel → UInt32) (i : ℕ) : ℕ :=
  if h : i < totalWheel then (memory ⟨i, h⟩).toNat else 0

/-- `EvTimer::EvTimer` in memory that held `memory` where `slot_now_` is. -/
def construct (memory : Fin totalWheel → UInt32) (os : Libc) (buf tickInterval : ℕ) :
    Except Fault EvTimer := do
  let t ← EvTimer.new os buf tickInterval
  pure { t with slotNow := slots memory }

/-- **The runs** from the constructor on, after `k` ticks: any calls between them, and any calls of
their callbacks. -/
inductive Ticked (memory : Fin totalWheel → UInt32) (os : Libc) (buf tickInterval : ℕ) :
    EvTimer → ℕ → Prop where
  | new {t : EvTimer} : construct memory os buf tickInterval = .ok t →
      Ticked memory os buf tickInterval t 0
  | call {t t' : EvTimer} {k : ℕ} {evs : List TimerEvent} (c : TimerCall) :
      Ticked memory os buf tickInterval t k → t.call c = .ok (t', evs) →
      Ticked memory os buf tickInterval t' k
  | tick {t t' : EvTimer} {k : ℕ} {evs : List TimerEvent} (env : ℕ → List TimerCall) :
      Ticked memory os buf tickInterval t k → t.processTick env = .ok (t', evs) →
      Ticked memory os buf tickInterval t' (k + 1)

/-- The wheels stand at the time, which is the number of ticks. -/
structure Positioned (t : EvTimer) (k : ℕ) : Prop where
  inside : ∀ i < 3, t.slotNow i < 1024
  slots : t.slotNow 0 + 1024 * t.slotNow 1 + 1024 ^ 2 * t.slotNow 2 = t.ticknow
  ticks : t.ticknow = k

variable {memory : Fin totalWheel → UInt32} {os : Libc} {buf tickInterval k : ℕ} {t : EvTimer}

lemma positioned_of_stands (h : Stands k t) (hk : k < 2 ^ 30) : Positioned t k := by
  obtain ⟨hnow, hfirst, hsecond, hthird⟩ := h
  simp only [slotPerWheel] at hfirst hsecond hthird
  refine ⟨fun i hi => ?_, ?_, hnow⟩
  · obtain rfl | rfl | rfl : i = 0 ∨ i = 1 ∨ i = 2 := by omega
    all_goals omega
  · omega

lemma slots_zero (h : ∀ i, memory i = 0) : slots memory = fun _ => 0 := by
  funext i
  rw [slots]
  split_ifs with hi
  · rw [h]
    rfl
  · rfl

lemma stands_construct (hzero : ∀ i, memory i = 0)
    (h : construct memory os buf tickInterval = .ok t) : Stands 0 t := by
  obtain ⟨t₀, hnew, h⟩ := bind_eq_ok h
  obtain rfl := Except.ok.inj h
  obtain ⟨hnow, -⟩ := stands_new hnew
  refine ⟨hnow, ?_⟩
  show At (slots memory) 0
  rw [slots_zero hzero]
  exact ⟨rfl, rfl, rfl⟩

/-- **From zeroed memory** the carry loop keeps the wheels at the time. -/
lemma Ticked.stands (hzero : ∀ i, memory i = 0) (h : Ticked memory os buf tickInterval t k)
    (hk : k < 2 ^ 30) : Stands k t := by
  induction h with
  | new hnew => exact stands_construct hzero hnew
  | @call t _ _ _ c _ hrun ih =>
      have hstands := ih hk
      have hlim : (TimerStep.call c).now t < 2 ^ 30 := by
        rw [TimerStep.now, hstands.1]
        exact hk
      have hstep := stands_step hstands hlim hrun
      rwa [TimerStep.now, hstands.1] at hstep
  | @tick t _ _ _ env _ hrun ih =>
      have hstands := ih (by omega)
      have hlim : (TimerStep.tick env).now t < 2 ^ 30 := by
        rw [TimerStep.now, hstands.1]
        exact hk
      have hstep := stands_step hstands hlim hrun
      rwa [TimerStep.now, hstands.1] at hstep

/-- A timer can be constructed over any memory. -/
lemma construct_returns (memory : Fin totalWheel → UInt32) :
    ∃ t, construct memory zeroLibc 4096 1000 = .ok t ∧ t.ticknow = 0 ∧
      t.slotNow = slots memory := by
  obtain ⟨t, hnew⟩ : ∃ t, EvTimer.new zeroLibc 4096 1000 = .ok t := ⟨_, rfl⟩
  refine ⟨{ t with slotNow := slots memory }, ?_, (stands_new hnew).1, rfl⟩
  rw [construct, hnew]
  rfl

/-- **The wheel position is the time**, after fewer than `2^30` ticks of every run, exactly when the
memory of `slot_now_` was zero before the construction.  The word behind `wheel_[1]` is NULL at the
construction. -/
theorem position_iff (memory : Fin totalWheel → UInt32) :
    (∀ os buf tickInterval t k, Ticked memory os buf tickInterval t k → k < 2 ^ 30 →
        Positioned t k) ↔
      ∀ i, memory i = 0 := by
  constructor
  · intro hall i
    obtain ⟨t, hnew, hnow, hslots⟩ := construct_returns memory
    obtain ⟨-, hsum, -⟩ := hall _ _ _ t 0 (.new hnew) (by decide)
    rw [hnow, hslots] at hsum
    have hzero : slots memory i = 0 := by
      obtain ⟨j, hj⟩ := i
      obtain rfl | rfl | rfl : j = 0 ∨ j = 1 ∨ j = 2 := by
        simp only [totalWheel] at hj
        omega
      all_goals
        dsimp only
        omega
    rw [slots, dif_pos i.2] at hzero
    exact UInt32.toNat_inj.mp hzero
  · intro hzero os buf tickInterval t k h hk
    exact positioned_of_stands (h.stands hzero hk) hk

/-- **Over memory that was not zero** the wheels stand elsewhere from the beginning. -/
theorem position_off : ∃ (memory : Fin totalWheel → UInt32) (t : EvTimer),
    Ticked memory zeroLibc 4096 1000 t 0 ∧ t.ticknow = 0 ∧ t.slotNow 0 = 7 ∧
      ¬ Positioned t 0 := by
  obtain ⟨t, hnew, hnow, hslots⟩ := construct_returns fun _ => 7
  have hfirst : t.slotNow 0 = 7 := by
    rw [hslots]
    rfl
  refine ⟨_, t, .new hnew, hnow, hfirst, fun h => ?_⟩
  have hsum := h.slots
  omega

end EvTimer

end Axon
