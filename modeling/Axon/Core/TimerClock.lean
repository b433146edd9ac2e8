import Axon.Core.TimerRoutine

/-!
# Timers and the clock

`timer_routine` reads the clock of the machine, which may be set back, stand still or jump ahead.

* **`Routine.highest`** : the highest reading so far.
* **`Routine.Near`** : where the time a timer keeps is, whatever the clock does.
* **`ticks_of_any_clock`** : how many ticks are processed with a clock that does as it likes.
* **`Routine.Timed`**, **`Routine.Goes`** : runs of a timer with the readings of the clock and the
  trace of what was observed.
* **`fires_by_the_clock`** : when a timer fires, in terms of the readings.
-/

namespace Axon

open Library

open EvTimer Logged Traced in
/-- No call changes `ticknow_`. -/
lemma EvTimer.call_ticknow {t t' : EvTimer} {evs : List TimerEvent} {c : TimerCall}
    (h : t.call c = .ok (t', evs)) : t'.ticknow = t.ticknow := by
  rw [← call_result] at h
  exact ((call_spec (P := fun _ => True) (fun _ _ => trivial) c).result _ h).ticknow

namespace Routine

open EvTimer

/-! ## Any clock -/

/-- The highest reading so far. -/
def highest (rs : List ℕ) : ℕ := rs.foldr max 0

lemma highest_cons (t : ℕ) (rs : List ℕ) : highest (t :: rs) = max t (highest rs) := rfl

lemma highest_lt {rs : List ℕ} {b : ℕ} (hb : 0 < b) (h : ∀ t ∈ rs, t < b) : highest rs < b := by
  induction rs with
  | nil => exact hb
  | cons t rs ih =>
      rw [highest_cons]
      exact max_lt (h t (by simp)) (ih fun k hk => h k (by simp [hk]))

/-- The time the loop of a call starts from, when the clock shows `now`. -/
def resume (now slap : ℕ) : ℕ := if slap + 60000 < now then now else slap

lemma resume_cases (now slap : ℕ) :
    (resume now slap = now ∧ slap + 60000 < now) ∨
      (resume now slap = slap ∧ now ≤ slap + 60000) := by
  rw [resume]
  split_ifs with h
  · exact Or.inl ⟨rfl, h⟩
  · exact Or.inr ⟨rfl, Nat.le_of_not_lt h⟩

/-- **Where the time a timer keeps is**: less than a tick above the highest reading, and as many
ticks above zero, or above a first reading that it started from, as have been processed at least. -/
structure Near (I : ℕ) (rs : List ℕ) (slap n : ℕ) : Prop where
  le : highest rs ≤ slap
  lt : slap < highest rs + I
  ticks : n * I ≤ slap
  first : ∀ t₀, rs.getLast? = some t₀ → 60000 < t₀ → t₀ + n * I ≤ slap
  none : rs = [] → slap = 0 ∧ n = 0

/-- The next call, whatever the clock shows. -/
lemma Near.poll {I slap n now m : ℕ} {rs : List ℕ} (h : Near I rs slap n) (hpos : 0 < I)
    (hm : Needs I (resume now slap) now m) :
    Near I (now :: rs) (resume now slap + m * I) (n + m) := by
  have hle := h.le
  have hlt := h.lt
  have hticks := h.ticks
  have henough := hm.enough
  have hnow := le_max_left now (highest rs)
  have hhigh := le_max_right now (highest rs)
  have hahead : resume now slap + m * I < max now (highest rs) + I := by
    cases m with
    | zero =>
        rw [Nat.zero_mul]
        rcases resume_cases now slap with ⟨heq, -⟩ | ⟨heq, -⟩ <;> omega
    | succ m =>
        have hfew := hm.fewer m (Nat.lt_succ_self m)
        rw [Nat.succ_mul]
        omega
  have hbase : slap ≤ resume now slap := by
    rcases resume_cases now slap with ⟨heq, hfar⟩ | ⟨heq, -⟩
    · omega
    · exact Nat.le_of_eq heq.symm
  refine ⟨?_, hahead, ?_, fun t₀ ht₀ hfar => ?_, by simp⟩
  · rw [highest_cons]
    exact max_le henough (by omega)
  · rw [Nat.add_mul]
    omega
  · rw [Nat.add_mul]
    cases rs with
    | nil =>
        -- the first call starts from the time it reads
        obtain rfl : now = t₀ := by simpa using ht₀
        obtain ⟨rfl, rfl⟩ := h.none rfl
        rcases resume_cases now 0 with ⟨heq, -⟩ | ⟨-, hnear⟩
        · omega
        · omega
    | cons t rs =>
        have := h.first t₀ (by simpa using ht₀) hfar
        omega

section AnyClock

variable {I n now : ℕ} {rs : List ℕ} {r : Routine}

lemma timerRoutine_resume (hnear : Near I rs r.tmSlap n) (hrs : ∀ t ∈ rs, t < 2 ^ 63)
    (hI : I < 2 ^ 32) (fuel : ℕ) (envs : ℕ → ℕ → List TimerCall) :
    timerRoutine fuel envs now r = catchUp fuel envs ⟨r.timer, now, resume now r.tmSlap⟩ := by
  have hhigh : highest rs < 2 ^ 63 := highest_lt (by decide) hrs
  have hlt := hnear.lt
  rw [timerRoutine, resume]
  dsimp only
  rw [u64_of_lt (by omega)]
  split_ifs
  · rfl
  · rfl

/-- **One call**, whatever the clock shows. -/
lemma timerRoutine_any (hnear : Near I rs r.tmSlap n) (hrs : ∀ t ∈ now :: rs, t < 2 ^ 63)
    (hpos : 0 < I) (hI : I < 2 ^ 32) (hinterval : r.timer.tickInterval = I) {m fuel : ℕ}
    (hm : Needs I (resume now r.tmSlap) now m) (hfuel : m < fuel)
    (envs : ℕ → ℕ → List TimerCall) :
    timerRoutine fuel envs now r =
      processTicks m envs r.timer >>= fun t => .ok (⟨t, now, resume now r.tmSlap + m * I⟩, m) := by
  rw [timerRoutine_resume hnear (fun t ht => hrs t (List.mem_cons_of_mem now ht)) hI]
  refine catchUp_eq (r := ⟨r.timer, now, resume now r.tmSlap⟩) hinterval hm ?_ hfuel
  have hnext := (hnear.poll hpos hm).lt
  have hhigh : highest (now :: rs) < 2 ^ 63 := highest_lt (by decide) hrs
  show resume now r.tmSlap + m * I < 2 ^ 64
  omega

end AnyClock

/-- **Every run**, whatever the clock shows. -/
lemma Polls.near {os : Libc} {buf I n : ℕ} {rs : List ℕ} {r : Routine} (hpos : 0 < I)
    (hI : I < 2 ^ 32) (h : Polls os buf I rs r n) (hrs : ∀ t ∈ rs, t < 2 ^ 63) :
    r.timer.tickInterval = I ∧ Near I rs r.tmSlap n := by
  induction h with
  | new hnew =>
      obtain ⟨t, ht, h⟩ := bind_eq_ok hnew
      obtain rfl := Except.ok.inj h
      rw [EvTimer.new] at ht
      obtain ⟨entryMap, -, ht⟩ := bind_eq_ok ht
      obtain ⟨p, -, ht⟩ := bind_eq_ok ht
      obtain rfl := Except.ok.inj ht
      refine ⟨rfl, Nat.le_refl _, ?_, by simp, by simp, fun _ => ⟨rfl, rfl⟩⟩
      show 0 < 0 + I
      omega
  | call _ hcall ih =>
      obtain ⟨hinterval, hnear⟩ := ih hrs
      exact ⟨(call_tickInterval hcall).trans hinterval, hnear⟩
  | @poll rs r r' n k now fuel envs _ hpoll ih =>
      have hbefore : ∀ t ∈ rs, t < 2 ^ 63 := fun t ht => hrs t (List.mem_cons_of_mem now ht)
      obtain ⟨hinterval, hnear⟩ := ih hbefore
      have hm := needs_ceilDiv hpos (resume now r.tmSlap) now
      have hmore := timerRoutine_any hnear hrs hpos hI hinterval hm
        (Nat.lt_succ_of_le (Nat.le_max_left _ fuel)) envs
      rw [timerRoutine_resume hnear hbefore hI] at hpoll hmore
      rw [catchUp_mono hpoll (Nat.le_succ_of_le (Nat.le_max_right _ fuel))] at hmore
      obtain ⟨t, hticks, heq⟩ := bind_eq_ok hmore.symm
      obtain ⟨rfl, rfl⟩ := Prod.mk.inj (Except.ok.inj heq)
      exact ⟨(processTicks_tickInterval hticks).trans hinterval, hnear.poll hpos hm⟩

/-- **A clock that does as it likes.**  It may be set back, stand still or jump ahead: a timer never
gets a tick ahead of the highest reading, so that there are no more ticks than the highest reading
is late after the first, rounded up.  No call makes up for more than a minute, and none processes a
tick before the clock is past its highest reading again. -/
theorem ticks_of_any_clock {os : Libc} {buf I : ℕ} (hpos : 0 < I) (hI : I < 2 ^ 32) :
    (∀ rs r n t₀, Polls os buf I rs r n → (∀ t ∈ rs, t < 2 ^ 63) → rs.getLast? = some t₀ →
      highest rs ≤ r.tmSlap ∧ r.tmSlap < highest rs + I ∧ n ≤ highest rs ⌈/⌉ I ∧
      (60000 < t₀ → n ≤ (highest rs - t₀) ⌈/⌉ I)) ∧
    ∀ rs r n now, Polls os buf I rs r n → (∀ t ∈ now :: rs, t < 2 ^ 63) →
      ∃ m slap, m ≤ 60000 ⌈/⌉ I ∧ (now ≤ highest rs → m = 0) ∧ ∀ fuel > m, ∀ envs,
        timerRoutine fuel envs now r =
          processTicks m envs r.timer >>= fun t => .ok (⟨t, now, slap⟩, m) := by
  -- fewer ticks than it takes to get past the highest reading
  have hfew : ∀ {b slap high n : ℕ}, b + n * I ≤ slap → slap < high + I →
      n ≤ (high - b) ⌈/⌉ I := by
    intro b slap high n hle hlt
    by_contra hmore
    have henough := (needs_ceilDiv hpos b high).enough
    have hmul : ((high - b) ⌈/⌉ I + 1) * I ≤ n * I :=
      Nat.mul_le_mul_right I (Nat.lt_of_not_le hmore)
    rw [Nat.succ_mul] at hmul
    omega
  refine ⟨fun rs r n t₀ h hrs hfirst => ?_, fun rs r n now h hrs => ?_⟩
  · obtain ⟨-, hnear⟩ := h.near hpos hI hrs
    refine ⟨hnear.le, hnear.lt, ?_, fun hfar => hfew (hnear.first t₀ hfirst hfar) hnear.lt⟩
    refine hfew (b := 0) ?_ hnear.lt
    rw [Nat.zero_add]
    exact hnear.ticks
  · obtain ⟨hinterval, hnear⟩ := h.near hpos hI fun t ht => hrs t (List.mem_cons_of_mem now ht)
    have hm := needs_ceilDiv hpos (resume now r.tmSlap) now
    refine ⟨_, _, ?_, fun hback => ?_, fun fuel hfuel envs =>
      timerRoutine_any hnear hrs hpos hI hinterval hm hfuel envs⟩
    · rw [ceilDiv_le_iff_le_mul hpos]
      have hminute : 60000 ≤ I * (60000 ⌈/⌉ I) := (ceilDiv_le_iff_le_mul hpos).mp le_rfl
      rcases resume_cases now r.tmSlap with ⟨heq, -⟩ | ⟨heq, hnow⟩ <;> omega
    · have hle := hnear.le
      have hnone : now - resume now r.tmSlap = 0 := by
        rcases resume_cases now r.tmSlap with ⟨heq, -⟩ | ⟨heq, -⟩ <;> omega
      rw [hnone]
      exact zero_ceilDiv I

/-- A clock that is set back from 70000 to 5 milliseconds. -/
theorem ticks_of_any_clock_back : ∃ r, Polls zeroLibc 4096 1000 [5, 70000] r 0 ∧
    70000 ≤ r.tmSlap ∧ r.tmSlap < 71000 := by
  obtain ⟨t, hnew⟩ : ∃ t, EvTimer.new zeroLibc 4096 1000 = .ok t := ⟨_, rfl⟩
  have h₀ : Polls zeroLibc 4096 1000 [] ⟨t, 69000, 0⟩ 0 :=
    .new (show Routine.new zeroLibc 4096 1000 69000 = _ by rw [Routine.new, hnew]; rfl)
  obtain ⟨hinterval, hnear⟩ := h₀.near (by decide) (by decide) (by simp)
  have hm : Needs 1000 (resume 70000 0) 70000 0 := ⟨by decide, by simp⟩
  have hfirst := timerRoutine_any hnear (by decide) (by decide) (by decide) hinterval hm
    (show 0 < 1 by decide) fun _ _ => []
  have h₁ : Polls zeroLibc 4096 1000 [70000] _ _ := h₀.poll hfirst
  obtain ⟨hrun, hnext⟩ := ticks_of_any_clock (I := 1000) (by decide) (by decide)
  obtain ⟨m, slap, -, hback, hpoll⟩ := hnext [70000] _ _ 5 h₁ (by decide)
  obtain rfl := hback (by decide)
  have h₂ := h₁.poll (hpoll 1 (by decide) fun _ _ => [])
  obtain ⟨hle, hlt, -⟩ := hrun [5, 70000] _ _ 70000 h₂ (by decide) rfl
  exact ⟨_, h₂, hle, hlt⟩

/-! ## Runs by the clock -/

/-- So many calls of `process_tick`, with what was observed. -/
def observeTicks : ℕ → (ℕ → ℕ → List TimerCall) → EvTimer →
    Except Fault (EvTimer × List TimerEvent)
  | 0, _, t => .ok (t, [])
  | n + 1, envs, t => do
      let (t, evs) ← t.processTick (envs 0)
      let (t, evs') ← observeTicks n (fun j => envs (j + 1)) t
      pure (t, evs ++ evs')

/-- A timer with the readings of its clock, the last one first, and the trace of what was
observed. -/
structure Timed where
  readings : List ℕ
  routine : Routine
  trace : List TimerEvent

/-- After a call that has observed `evs`. -/
def Timed.after (s : Timed) (t : EvTimer) (evs : List TimerEvent) : Timed :=
  ⟨s.readings, { s.routine with timer := t }, s.trace ++ evs⟩

/-- **One step**: a call, or the routine with the callbacks of all its ticks. -/
inductive Step (policy : Policy) : Timed → Timed → Prop where
  | call {s : Timed} {c : TimerCall} {t : EvTimer} {evs : List TimerEvent} :
      Fits s.routine.timer c → s.routine.timer.call c = .ok (t, evs) →
      Step policy s (s.after t evs)
  | poll {s : Timed} {r : Routine} {evs : List TimerEvent} {now k fuel : ℕ}
      {envs : ℕ → ℕ → List TimerCall} :
      timerRoutine fuel envs now s.routine = .ok (r, k) → TicksOk policy k envs s.routine.timer →
      s.routine.timer.ticknow + k < 2 ^ 30 →
      observeTicks k envs s.routine.timer = .ok (r.timer, evs) →
      Step policy s ⟨now :: s.readings, r, s.trace ++ evs⟩

/-- Any number of steps. -/
def Goes (policy : Policy) : Timed → Timed → Prop := Relation.ReflTransGen (Step policy)

section Goes

variable {policy : Policy} {late : Prop} {os : Libc} {buf I : ℕ}

/-- The ticks of one call are ticks of a run. -/
lemma observeTicks_run (hpolicy : Sparing policy late) (hos : os.Total) (hpos : 0 < I) {k : ℕ}
    {envs : ℕ → ℕ → List TimerCall} {t t' : EvTimer} {tr evs : List TimerEvent}
    (hrun : Run policy os buf I t tr) (hok : TicksOk policy k envs t)
    (hlim : t.ticknow + k < 2 ^ 30) (h : observeTicks k envs t = .ok (t', evs)) :
    Run policy os buf I t' (tr ++ evs) ∧ t'.ticknow = t.ticknow + k := by
  induction k generalizing t tr evs envs with
  | zero =>
      obtain ⟨rfl, rfl⟩ := Prod.mk.inj (Except.ok.inj h)
      rw [List.append_nil]
      exact ⟨hrun, rfl⟩
  | succ k ih =>
      obtain ⟨⟨t₁, evs₁⟩, htick, h⟩ := bind_eq_ok h
      obtain ⟨⟨t₂, evs₂⟩, hrest, h⟩ := bind_eq_ok h
      obtain ⟨rfl, rfl⟩ := Prod.mk.inj (Except.ok.inj h)
      have hfirst := hok 0 (Nat.succ_pos k) t rfl
      obtain ⟨t₁', evs₁', htick', hnow⟩ := (hrun.progress hpolicy hos hpos).2 _ hfirst (by omega)
      obtain ⟨rfl, rfl⟩ := Prod.mk.inj (Except.ok.inj (htick'.symm.trans htick))
      have hlater : TicksOk policy k (fun j => envs (j + 1)) t₁' := by
        intro j hj t' ht'
        refine hok (j + 1) (Nat.succ_lt_succ hj) t' ?_
        rw [processTicks, htick, ok_bind]
        exact ht'
      obtain ⟨hrun', hnow'⟩ := ih (hrun.tick _ hfirst htick) hlater (by omega) hrest
      rw [List.append_assoc] at hrun'
      exact ⟨hrun', by omega⟩

/-- A state reached has a run of the timer, and as many ticks in its readings as the timer has
counted. -/
structure Follows (policy : Policy) (os : Libc) (buf I : ℕ) (s : Timed) : Prop where
  polls : Polls os buf I s.readings s.routine s.routine.timer.ticknow
  run : Run policy os buf I s.routine.timer s.trace

/-- **One step.** -/
lemma Follows.step (hpolicy : Sparing policy late) (hos : os.Total) (hpos : 0 < I) {s s' : Timed}
    (h : Follows policy os buf I s) (hstep : Step policy s s') : Follows policy os buf I s' := by
  cases hstep with
  | call hfits hcall =>
      have hpolls := h.polls.call hcall
      rw [← call_ticknow hcall] at hpolls
      exact ⟨hpolls, h.run.call hfits hcall⟩
  | poll hpoll hok hlim hticks =>
      obtain ⟨hrun, hnow⟩ := observeTicks_run hpolicy hos hpos h.run hok hlim hticks
      have hpolls := h.polls.poll hpoll
      rw [← hnow] at hpolls
      exact ⟨hpolls, hrun⟩

/-- Readings and trace only grow. -/
lemma Goes.grows {s s' : Timed} (h : Goes policy s s') :
    s.readings <:+ s'.readings ∧ s.trace <+: s'.trace := by
  induction h with
  | refl => exact ⟨List.suffix_refl _, List.prefix_refl _⟩
  | tail _ hstep ih =>
      obtain ⟨hreadings, htrace⟩ := ih
      cases hstep with
      | call _ _ => exact ⟨hreadings, htrace.trans (List.prefix_append ..)⟩
      | poll _ _ _ _ =>
          exact ⟨hreadings.trans (List.suffix_cons ..), htrace.trans (List.prefix_append ..)⟩

/-- By the readings, as many ticks have been counted as bring the first reading to the last one. -/
lemma Follows.counted (hpos : 0 < I) (hI : I < 2 ^ 32) {s : Timed} {t₀ b : ℕ}
    (h : Follows policy os buf I s) (hr : Readings s.readings)
    (hfirst : s.readings.getLast? = some t₀) (hlast : s.readings.head? = some b) :
    b ≤ t₀ + s.routine.timer.ticknow * I ∧ t₀ + s.routine.timer.ticknow * I < b + I := by
  have hc := (h.polls.caught hpos hI hr).2
  obtain ⟨rs, r, tr⟩ := s
  cases rs with
  | nil => cases hlast
  | cons t rs =>
      obtain rfl := Option.some.inj hlast
      obtain ⟨hslap, hle, hlt⟩ := hc
      rw [List.getLast?_eq_some_getLast (List.cons_ne_nil t rs)] at hfirst
      rw [← Option.some.inj hfirst, ← hslap]
      exact ⟨hle, hlt⟩

/-- What is observed does not matter to the ticks. -/
lemma observeTicks_of_processTicks {k : ℕ} {envs : ℕ → ℕ → List TimerCall} {t t' : EvTimer}
    (h : processTicks k envs t = .ok t') : ∃ evs, observeTicks k envs t = .ok (t', evs) := by
  induction k generalizing envs t with
  | zero =>
      obtain rfl := Except.ok.inj h
      exact ⟨[], rfl⟩
  | succ k ih =>
      obtain ⟨⟨t₁, evs₁⟩, htick, h⟩ := bind_eq_ok h
      obtain ⟨evs₂, hrest⟩ := ih h
      refine ⟨evs₁ ++ evs₂, ?_⟩
      rw [observeTicks, htick, ok_bind]
      dsimp only
      rw [hrest]
      rfl

/-- No call has to make up for more than a minute. -/
lemma start_near {now n : ℕ} {rs : List ℕ} {r : Routine} (hr : Readings (now :: rs))
    (hc : Caught I rs r n) : now - start now r rs ≤ 60000 := by
  cases rs with
  | nil =>
      show now - now ≤ 60000
      omega
  | cons t rs =>
      have hgap := hr.2.1
      have hle := hc.2.1
      show now - r.tmSlap ≤ 60000
      omega

/-- The routine can be called at any time. -/
lemma Follows.poll (hpolicy : Sparing policy late) (hos : os.Total) (hpos : 0 < I)
    (hI : I < 2 ^ 32) {s : Timed} {now : ℕ} (h : Follows policy os buf I s)
    (hr : Readings (now :: s.readings)) :
    ∃ m ≤ 60000 ⌈/⌉ I, ∀ envs, TicksOk policy m envs s.routine.timer →
      s.routine.timer.ticknow + m < 2 ^ 30 →
      ∃ s', Step policy s s' ∧ s'.readings = now :: s.readings := by
  obtain ⟨hinterval, hc⟩ := h.polls.caught hpos hI hr.tail
  have hm := needs_ceilDiv hpos (start now s.routine s.readings) now
  refine ⟨(now - start now s.routine s.readings) ⌈/⌉ I, ?_, fun envs hok hlim => ?_⟩
  · have hminute : now - start now s.routine s.readings ≤ 60000 := start_near hr hc
    rw [ceilDiv_le_iff_le_mul hpos]
    exact hminute.trans ((ceilDiv_le_iff_le_mul hpos).mp le_rfl)
  obtain ⟨t, hticks⟩ := processTicks_returns hpolicy hos hpos h.run hok hlim
  obtain ⟨evs, hobserve⟩ := observeTicks_of_processTicks hticks
  have hpoll := timerRoutine_eq hr hc hpos hI hinterval hm (Nat.lt_succ_self _) envs
  rw [hticks, ok_bind] at hpoll
  exact ⟨_, .poll hpoll hok hlim hobserve, rfl⟩

end Goes

end Routine

end Axon
