import Axon.Core.TimerHistory

/-!
# The invariant of `EvTimer`

What every run of `add_timer`, `del_timer` and `process_tick` keeps, whatever the callbacks do with
the timer within a policy, and whatever is recorded of the run.

* **`EvTimer.Policy`** : which `del_timer` calls callbacks may make.  `process_tick` holds on to two
  entries of the bucket it runs, the head and the one behind the running entry; `Spares` forbids
  cancelling these two.
* **`EvTimer.Admission`** : which calls are considered, given the trace so far.
* **`EvTimer.Leads`** : what a run from a state leads to, with the trace of what was observed.
* **`EvTimer.Observes`** : what may be recorded of a run: a predicate on the pending timers and the
  trace that every kind of event keeps.
* **`EvTimer.Inv`** : the invariant, also in the middle of a tick: of the current bucket a first
  part has been run and the rest has not.
* **`EvTimer.Inv.call`**, **`EvTimer.Inv.runFrom`**, **`EvTimer.Inv.processTick`** : what one call,
  the callbacks of a tick and a tick preserve; **`EvTimer.Leads.inv`** : what a run preserves.
-/

namespace Axon

open Library

namespace EvTimer

/-! ## Runs -/

/-- Which `del_timer` calls the callback of an entry may make: `head` is the first entry of the
bucket, `next` the one behind the entry. -/
abbrev Policy := (head next : Option ℕ) → EvTimer → (handle : ℤ) → Prop

/-- Callbacks do not call `del_timer`. -/
def NoDel : Policy := fun _ _ _ _ => False

/-- Callbacks call `del_timer` at will. -/
def AnyDel : Policy := fun _ _ _ _ => True

/-- Callbacks do not cancel the timers whose entries `process_tick` still points to. -/
def Spares : Policy := fun head next t handle =>
  ∀ x, t.entryMap.getData handle = .ok (some x) → some x ≠ head ∧ some x ≠ next

/-- A policy under which `process_tick` works; `late` says whether it allows any cancellation. -/
def Sparing (policy : Policy) (late : Prop) : Prop :=
  ∀ head next t handle, policy head next t handle → late ∧ Spares head next t handle

lemma noDel_sparing : Sparing NoDel False := fun _ _ _ _ h => h.elim

lemma spares_sparing : Sparing Spares True := fun _ _ _ _ h => ⟨trivial, h⟩

/-- The calls considered, given the trace so far. -/
abbrev Admission := List TimerEvent → EvTimer → TimerCall → Prop

section Conditions

variable (accept : Admission)

/-- The calls of one callback are admitted, and its cancellations are allowed. -/
def CallsFit (allow : EvTimer → ℤ → Prop) : List TimerEvent → EvTimer → List TimerCall → Prop
  | _, _, [] => True
  | tr, t, c :: cs => accept tr t c ∧ (∀ handle, c = .del handle → allow t handle) ∧
      ∀ t' evs, t.call c = .ok (t', evs) → CallsFit allow (tr ++ evs) t' cs

/-- So are the calls of the callbacks of a bucket, from `p` on. -/
def RunFits (policy : Policy) (head : Option ℕ) (env : ℕ → List TimerCall) :
    ℕ → ℕ → List TimerEvent → EvTimer → Option ℕ → Prop
  | _, _, _, _, none => True
  | 0, _, _, _, some _ => True
  | fuel + 1, j, tr, t, some p => ∀ e, deref t.entries p = .ok e →
      match e.cbfunc with
      | none => RunFits policy head env fuel j tr t e.next
      | some cb => CallsFit accept (policy head e.next)
            (tr ++ [.fired t.ticknow cb e.handle e.data]) t (env j) ∧
          ∀ t' evs, t.calls (env j) = .ok (t', evs) → RunFits policy head env fuel (j + 1)
            (tr ++ [.fired t.ticknow cb e.handle e.data] ++ evs) t' e.next

/-- So are the calls of the callbacks of the next tick. -/
def TickFits (policy : Policy) (tr : List TimerEvent) (t : EvTimer) (env : ℕ → List TimerCall) :
    Prop :=
  ∀ t' head, t.advance = .ok t' → t'.wheelAt 0 (t'.slotNow 0) = .ok head →
    RunFits accept policy head env t'.entries.bound 0 tr t' head

/-- **What a run leads to** from the state `t₀` on, with its trace.  Outside callbacks any handle
may be cancelled. -/
inductive Leads (policy : Policy) (t₀ : EvTimer) (tr₀ : List TimerEvent) :
    EvTimer → List TimerEvent → Prop where
  | refl : Leads policy t₀ tr₀ t₀ tr₀
  | call {t t' : EvTimer} {tr evs : List TimerEvent} {c : TimerCall} :
      Leads policy t₀ tr₀ t tr → accept tr t c → t.call c = .ok (t', evs) →
      Leads policy t₀ tr₀ t' (tr ++ evs)
  | tick {t t' : EvTimer} {tr evs : List TimerEvent} (env : ℕ → List TimerCall) :
      Leads policy t₀ tr₀ t tr → TickFits accept policy tr t env →
      t.processTick env = .ok (t', evs) → Leads policy t₀ tr₀ t' (tr ++ evs)

/-- Callbacks that make no calls fit. -/
lemma RunFits.silent {policy : Policy} {head p : Option ℕ} {fuel j : ℕ} {tr : List TimerEvent}
    {t : EvTimer} : RunFits accept policy head (fun _ => []) fuel j tr t p := by
  induction fuel generalizing j tr t p with
  | zero => cases p <;> trivial
  | succ fuel ih =>
      cases p with
      | none => trivial
      | some p =>
          intro e _
          cases e.cbfunc with
          | none => exact ih
          | some cb => exact ⟨trivial, fun t' evs _ => ih⟩

lemma TickFits.silent {policy : Policy} {tr : List TimerEvent} {t : EvTimer} :
    TickFits accept policy tr t fun _ => [] :=
  fun _ _ _ _ => RunFits.silent accept

end Conditions

/-! ## What is recorded -/

/-- A record of a run: the time, the last handle, the pending timers, the entries the current tick
has run already, and the trace. -/
abbrev Observer := ℕ → ℤ → List PTimer → List ℕ → List TimerEvent → Prop

/-- **A record that can be kept** of the runs with admitted calls, in which `late` says whether a
timer may be cancelled in the tick that has invoked it already: each kind of event keeps it, and it
knows that the handle of an admitted `add_timer` is not pending. -/
structure Observes (accept : Admission) (late : Prop) (I : ℕ) (L : Observer) : Prop where
  admits : ∀ {t pend ran tr mem cbfunc data timeout}, t.tickInterval = I →
    L t.ticknow t.handle pend ran tr → accept tr t (.add mem cbfunc data timeout) →
    Outside mem t ∧ expiry I t.ticknow timeout < 2 ^ 30 ∧
      nextHandle t.handle ∉ pend.map PTimer.handle
  add : ∀ {t pend ran tr mem cbfunc data timeout a}, t.tickInterval = I →
    L t.ticknow t.handle pend ran tr → accept tr t (.add mem cbfunc data timeout) → a ∉ ran →
    L t.ticknow (nextHandle t.handle)
      (⟨a, nextHandle t.handle, cbfunc, expiry I t.ticknow timeout, data⟩ :: pend) ran
      (tr ++ [.added t.ticknow timeout (nextHandle t.handle) cbfunc data])
  del_none : ∀ {now k pend ran tr}, L now k pend ran tr → ∀ h, L now k pend ran
    (tr ++ [.deleted h (-1)])
  del : ∀ {now k pend ran ran' tr p}, L now k pend ran tr → p ∈ pend →
    (p.addr ∈ ran → late ∧ p.tick ≤ now) →
    (∀ q ∈ pend, q.handle ≠ p.handle → (q.addr ∈ ran' ↔ q.addr ∈ ran)) →
    L now k (pend.filter fun q => q.handle ≠ p.handle) ran' (tr ++ [.deleted p.handle 0])
  fire : ∀ {now k pend ran tr p}, L now k pend ran tr → p ∈ pend → p.addr ∉ ran →
    (∀ q ∈ pend, q.handle = p.handle → q = p) → (∀ q ∈ pend, q.addr = p.addr → q = p) →
    L now k pend (ran ++ [p.addr]) (tr ++ firing p.tick p.cbfunc p.handle p.data)
  free : ∀ {now k pend gone ran tr}, L now k pend ran tr → gone ⊆ pend →
    (gone.map PTimer.handle).Nodup → (∀ p ∈ gone, p.addr ∈ ran ∧ p.tick ≤ now) →
    (∀ p ∈ without pend gone, p.addr ∉ ran) →
    L now k (without pend gone) [] (tr ++ gone.map fun q => .freed q.handle)
  mono : ∀ {now now' k pend ran tr}, L now k pend ran tr → now ≤ now' → L now' k pend ran tr

/-! ## The invariant -/

/-- **The invariant** of a timer with ticks of `I`, of which `L` is recorded.  Of the bucket of the
current tick the entries `l₁` have been run and the entries `l₂` have not; both lists are empty
between two calls. -/
structure Inv (I : ℕ) (L : Observer) (t : EvTimer) (B : ℕ × ℕ → List ℕ) (pend : List PTimer)
    (l₁ l₂ : List ℕ) (tr : List TimerEvent) : Prop where
  filed : Filed t B pend
  position : At t.slotNow t.ticknow
  small : t.ticknow < 2 ^ 30 + 2 ^ 20
  interval : t.tickInterval = I
  pos : 0 < I
  record : L t.ticknow t.handle pend l₁ tr
  bucket : B (due t.ticknow) = l₁ ++ l₂
  not_past : ∀ p ∈ pend, t.ticknow ≤ p.tick

/-- What callbacks leave of the current bucket: its head, the first entry that is still to be run,
and no more of these. -/
structure Spared (l₁ l₂ l₁' l₂' : List ℕ) : Prop where
  head : (l₁' ++ l₂').head? = (l₁ ++ l₂).head?
  next : l₂'.head? = l₂.head?
  length : l₂'.length ≤ l₂.length

lemma Spared.refl (l₁ l₂ : List ℕ) : Spared l₁ l₂ l₁ l₂ := ⟨rfl, rfl, Nat.le_refl _⟩

lemma Spared.trans {l₁ l₂ l₁' l₂' l₁'' l₂'' : List ℕ} (h : Spared l₁ l₂ l₁' l₂')
    (h' : Spared l₁' l₂' l₁'' l₂'') : Spared l₁ l₂ l₁'' l₂'' :=
  ⟨h'.head.trans h.head, h'.next.trans h.next, Nat.le_trans h'.length h.length⟩

lemma head?_erase {l : List ℕ} {a : ℕ} (h : some a ≠ l.head?) : (l.erase a).head? = l.head? := by
  cases l with
  | nil => rfl
  | cons b l =>
      have hne : b ≠ a := fun he => h (by rw [he]; rfl)
      rw [List.erase_cons_tail (by simpa using hne)]
      rfl

section Inv

variable {I : ℕ} {L : Observer} {t : EvTimer} {B : ℕ × ℕ → List ℕ} {pend : List PTimer}
  {l₁ l₂ : List ℕ} {tr : List TimerEvent} {p : PTimer} {accept : Admission} {late : Prop}

/-- The current bucket holds the timers that are due. -/
lemma Inv.mem_bucket (hi : Inv I L t B pend l₁ l₂ tr) (hp : p ∈ pend) :
    p.addr ∈ l₁ ++ l₂ ↔ p.tick = t.ticknow := by
  rw [← hi.bucket, hi.filed.mem, ← place_eq_due_iff hi.position (hi.not_past p hp)
    (hi.filed.limit p hp)]
  constructor
  · rintro ⟨q, hq, hqa, hplace⟩
    rwa [hi.filed.books.eq_of_addr hq hp hqa] at hplace
  · exact fun hplace => ⟨p, hp, rfl, hplace⟩

lemma Inv.exists_of_mem (hi : Inv I L t B pend l₁ l₂ tr) {a : ℕ} (ha : a ∈ l₁ ++ l₂) :
    ∃ p ∈ pend, p.addr = a ∧ p.tick = t.ticknow := by
  obtain ⟨p, hp, rfl, -⟩ := (hi.filed.mem (due t.ticknow) a).mp (hi.bucket ▸ ha)
  exact ⟨p, hp, rfl, (hi.mem_bucket hp).mp ha⟩

lemma Inv.nodup (hi : Inv I L t B pend l₁ l₂ tr) : (l₁ ++ l₂).Nodup :=
  hi.bucket ▸ (hi.filed.chains.chain _).nodup

/-- Between two calls all pending timers are ahead. -/
lemma Inv.ahead (hi : Inv I L t B pend [] [] tr) : ∀ p ∈ pend, t.ticknow < p.tick :=
  fun p hp => Nat.lt_of_le_of_ne (hi.not_past p hp) fun he =>
    absurd ((hi.mem_bucket hp).mpr he.symm) (by simp)

/-- Calls on the timer do not touch its clock. -/
lemma Inv.of_sameTime {t' : EvTimer} {B' : ℕ × ℕ → List ℕ} {pend' : List PTimer} {l₁' l₂' : List ℕ}
    {tr' : List TimerEvent} (hi : Inv I L t B pend l₁ l₂ tr) (hsame : SameTime t t')
    (hf : Filed t' B' pend')
    (hl : L t.ticknow t'.handle pend' l₁' tr')
    (hb : B' (due t.ticknow) = l₁' ++ l₂') (hp : ∀ p ∈ pend', t.ticknow ≤ p.tick) :
    Inv I L t' B' pend' l₁' l₂' tr' := by
  refine ⟨hf, ?_, ?_, hsame.tickInterval.trans hi.interval, hi.pos, ?_, ?_, ?_⟩
  · rw [hsame.slotNow, hsame.ticknow]
    exact hi.position
  · rw [hsame.ticknow]
    exact hi.small
  · rw [hsame.ticknow]
    exact hl
  · rw [hsame.ticknow]
    exact hb
  · rw [hsame.ticknow]
    exact hp

/-- **`add_timer`** keeps the invariant and does not touch the current bucket. -/
lemma Inv.add (hi : Inv I L t B pend l₁ l₂ tr) (ho : Observes accept late I L) {mem : TimerMem}
    {cbfunc data : Option ℕ} {timeout : ℕ} (haccept : accept tr t (.add mem cbfunc data timeout)) :
    ∃ t' B' a, t.addTimer mem cbfunc data timeout = .ok (t', nextHandle t.handle) ∧
      SameTime t t' ∧ B' (place t.slotNow (expiry I t.ticknow timeout)) =
        a :: B (place t.slotNow (expiry I t.ticknow timeout)) ∧
      Inv I L t' B' (⟨a, nextHandle t.handle, cbfunc, expiry I t.ticknow timeout, data⟩ :: pend)
        l₁ l₂ (tr ++ [.added t.ticknow timeout (nextHandle t.handle) cbfunc data]) := by
  obtain ⟨hmem, hlim, hfresh⟩ := ho.admits hi.interval hi.record haccept
  have hinterval : 0 < t.tickInterval := hi.interval ▸ hi.pos
  have hstored : t.storedTick timeout = expiry I t.ticknow timeout := by
    rw [← hi.interval] at hlim ⊢
    exact storedTick_eq hinterval (by omega)
  obtain ⟨t', a, hrun, hsame, hhandle, ha, hf⟩ :=
    hi.filed.add_stored hinterval hmem cbfunc data hstored hlim
  have hlater : t.ticknow < expiry I t.ticknow timeout := by
    rw [expiry]
    omega
  have hplace : due t.ticknow ≠ place t.slotNow (expiry I t.ticknow timeout) :=
    fun he => absurd ((place_eq_due_iff hi.position (Nat.le_of_lt hlater) hlim).mp he.symm)
      (Nat.ne_of_gt hlater)
  refine ⟨t', _, a, hrun, hsame, Function.update_self .., hi.of_sameTime hsame (hf hfresh) ?_ ?_ ?_⟩
  · rw [hhandle]
    refine ho.add hi.interval hi.record haccept fun hmem => ha ?_
    obtain ⟨q, hq, rfl, -⟩ := hi.exists_of_mem (List.mem_append_left l₂ hmem)
    exact List.mem_map_of_mem hq
  · rw [Function.update_of_ne hplace]
    exact hi.bucket
  · intro q hq
    rcases List.mem_cons.mp hq with rfl | hq
    · exact Nat.le_of_lt hlater
    · exact hi.not_past q hq

/-- **`del_timer`** keeps the invariant, and spares the current bucket where it does not cancel one
of the two timers `process_tick` points to. -/
lemma Inv.del (hi : Inv I L t B pend l₁ l₂ tr) (ho : Observes accept late I L) {handle : ℤ}
    (hspare : ∀ p ∈ pend, p.handle = handle →
      some p.addr ≠ (l₁ ++ l₂).head? ∧ some p.addr ≠ l₂.head? ∧ (p.addr ∈ l₁ → late)) :
    ∃ t' ret B' pend' l₁' l₂', t.delTimer handle = .ok (t', ret) ∧ SameTime t t' ∧
      Inv I L t' B' pend' l₁' l₂' (tr ++ [.deleted handle ret]) ∧ Spared l₁ l₂ l₁' l₂' := by
  by_cases hmem : handle ∈ pend.map PTimer.handle
  · obtain ⟨p, hp, rfl⟩ := List.mem_map.mp hmem
    obtain ⟨hhead, hnext, hlate⟩ := hspare p hp rfl
    obtain ⟨t', hrun, hsame, hhandle, hf⟩ := hi.filed.del hp
    have hnodup := hi.nodup
    have herase : (l₁ ++ l₂).erase p.addr = l₁.erase p.addr ++ l₂.erase p.addr := by
      rw [List.erase_append]
      split_ifs with hmem₁
      · rw [List.erase_of_not_mem fun hmem₂ =>
          (List.nodup_append.mp hnodup).2.2 _ hmem₁ _ hmem₂ rfl]
      · rw [List.erase_of_not_mem hmem₁]
    refine ⟨t', 0, _, _, l₁.erase p.addr, l₂.erase p.addr, hrun, hsame,
      hi.of_sameTime hsame hf ?_ ?_ ?_, ?_, head?_erase hnext, List.length_erase_le⟩
    · rw [hhandle]
      refine ho.del hi.record hp (fun hmem₁ => ⟨hlate hmem₁, Nat.le_of_eq ?_⟩) fun q hq hne => ?_
      · exact (hi.mem_bucket hp).mp (List.mem_append_left l₂ hmem₁)
      · refine List.mem_erase_of_ne fun he => hne ?_
        rw [hi.filed.books.eq_of_addr hq hp he]
    · rw [hi.bucket, herase]
    · exact fun q hq => hi.not_past q (List.mem_filter.mp hq).1
    · rw [← herase]
      exact head?_erase hhead
  · exact ⟨t, -1, B, pend, l₁, l₂, hi.filed.del_none hmem, SameTime.refl t,
      { hi with record := ho.del_none hi.record handle }, Spared.refl l₁ l₂⟩

/-- **One call** keeps the invariant. -/
lemma Inv.call (hi : Inv I L t B pend l₁ l₂ tr) (ho : Observes accept late I L) {c : TimerCall}
    (haccept : accept tr t c)
    (hspare : ∀ handle, c = .del handle → ∀ p ∈ pend, p.handle = handle →
      some p.addr ≠ (l₁ ++ l₂).head? ∧ some p.addr ≠ l₂.head? ∧ (p.addr ∈ l₁ → late)) :
    ∃ t' evs B' pend' l₁' l₂', t.call c = .ok (t', evs) ∧ SameTime t t' ∧
      Inv I L t' B' pend' l₁' l₂' (tr ++ evs) ∧ Spared l₁ l₂ l₁' l₂' := by
  cases c with
  | add mem cbfunc data timeout =>
      obtain ⟨t', B', a, hrun, hsame, -, hi'⟩ := hi.add ho haccept
      refine ⟨t', _, B', _, l₁, l₂, ?_, hsame, hi', Spared.refl l₁ l₂⟩
      rw [EvTimer.call, hrun]
      rfl
  | del handle =>
      obtain ⟨t', ret, B', pend', l₁', l₂', hrun, hsame, hi', hspared⟩ :=
        hi.del ho (hspare handle rfl)
      refine ⟨t', _, B', pend', l₁', l₂', ?_, hsame, hi', hspared⟩
      rw [EvTimer.call, hrun]
      rfl

/-- **The calls of a callback** keep the invariant. -/
lemma Inv.calls {allow : EvTimer → ℤ → Prop} {cs : List TimerCall}
    (hi : Inv I L t B pend l₁ l₂ tr) (ho : Observes accept late I L)
    (hok : CallsFit accept allow tr t cs)
    (hallow : ∀ t handle, allow t handle →
      late ∧ Spares (l₁ ++ l₂).head? l₂.head? t handle) :
    ∃ t' evs B' pend' l₁' l₂', t.calls cs = .ok (t', evs) ∧ SameTime t t' ∧
      Inv I L t' B' pend' l₁' l₂' (tr ++ evs) ∧ Spared l₁ l₂ l₁' l₂' := by
  induction cs generalizing t B pend l₁ l₂ tr with
  | nil =>
      refine ⟨t, [], B, pend, l₁, l₂, rfl, SameTime.refl t, ?_, Spared.refl l₁ l₂⟩
      rwa [List.append_nil]
  | cons c cs ih =>
      obtain ⟨haccept, hdel, hrest⟩ := hok
      obtain ⟨t₁, evs₁, B₁, pend₁, m₁, m₂, hrun₁, hsame₁, hi₁, hspared₁⟩ :=
        hi.call ho haccept fun handle hc p hp hhandle => by
          obtain ⟨hlate, hspare⟩ := hallow t handle (hdel handle hc)
          have hget := hi.filed.books.getData handle
          rw [← hhandle, hi.filed.books.find_handle hp] at hget
          have := hspare p.addr (hhandle ▸ hget)
          exact ⟨this.1, this.2, fun _ => hlate⟩
      obtain ⟨t₂, evs₂, B₂, pend₂, n₁, n₂, hrun₂, hsame₂, hi₂, hspared₂⟩ :=
        ih hi₁ (hrest t₁ evs₁ hrun₁) (by rwa [hspared₁.head, hspared₁.next])
      refine ⟨t₂, evs₁ ++ evs₂, B₂, pend₂, n₁, n₂, ?_, hsame₁.trans hsame₂, ?_,
        hspared₁.trans hspared₂⟩
      · rw [EvTimer.calls, hrun₁, ok_bind]
        dsimp only
        rw [hrun₂]
        rfl
      · rwa [← List.append_assoc]

/-- The next entry of the current bucket is run. -/
lemma Inv.fire {x : ℕ} (hi : Inv I L t B pend l₁ (x :: l₂) tr) (ho : Observes accept late I L) :
    ∃ p ∈ pend, p.addr = x ∧
      t.entries.cell x = some ⟨p.handle, p.cbfunc, t.ticknow, p.data, l₂.head?⟩ ∧
      Inv I L t B pend (l₁ ++ [x]) l₂ (tr ++ firing t.ticknow p.cbfunc p.handle p.data) := by
  obtain ⟨p, hp, rfl, htick⟩ := hi.exists_of_mem (a := x) (by simp)
  obtain ⟨nx, hcell, hnx⟩ := hi.filed.books.entry hp
  have hchain := hi.filed.chains.chain (due t.ticknow)
  rw [hi.bucket] at hchain
  have hnext : nx = l₂.head? := hnx.symm.trans hchain.next_eq
  have hnot : p.addr ∉ l₁ := fun hmem =>
    (List.nodup_append.mp hi.nodup).2.2 _ hmem _ List.mem_cons_self rfl
  refine ⟨p, hp, rfl, by rw [hcell, htick, hnext], ?_⟩
  refine hi.of_sameTime (SameTime.refl t) hi.filed ?_ ?_ hi.not_past
  · have hl := ho.fire hi.record hp hnot (fun q hq => hi.filed.books.eq_of_handle hq hp)
      fun q hq => hi.filed.books.eq_of_addr hq hp
    rwa [htick] at hl
  · rw [hi.bucket, List.append_assoc]
    rfl

/-- All of the current bucket has been run. -/
lemma Inv.runFrom_nil {env : ℕ → List TimerCall} {fuel j : ℕ} {head : Option ℕ}
    (hi : Inv I L t B pend l₁ [] tr) (hhead : head = (l₁ ++ []).head?) :
    ∃ t' evs B' pend' l₁', EvTimer.runFrom env fuel j t none = .ok (t', evs) ∧
      SameTime t t' ∧ Inv I L t' B' pend' l₁' [] (tr ++ evs) ∧ l₁'.head? = head := by
  refine ⟨t, [], B, pend, l₁, by rw [EvTimer.runFrom], SameTime.refl t, ?_, ?_⟩
  · rwa [List.append_nil]
  · rw [hhead, List.append_nil]

/-- **The callbacks of a bucket** keep the invariant. -/
lemma Inv.runFrom {policy : Policy} {env : ℕ → List TimerCall} {fuel j : ℕ} {head : Option ℕ}
    (hi : Inv I L t B pend l₁ l₂ tr) (ho : Observes accept late I L) (hpolicy : Sparing policy late)
    (hhead : head = (l₁ ++ l₂).head?)
    (hok : RunFits accept policy head env fuel j tr t l₂.head?) (hfuel : l₂.length ≤ fuel) :
    ∃ t' evs B' pend' l₁', EvTimer.runFrom env fuel j t l₂.head? = .ok (t', evs) ∧
      SameTime t t' ∧ Inv I L t' B' pend' l₁' [] (tr ++ evs) ∧ l₁'.head? = head := by
  induction fuel generalizing j t B pend l₁ l₂ tr with
  | zero =>
      obtain rfl : l₂ = [] := List.length_eq_zero_iff.mp (Nat.le_zero.mp hfuel)
      exact hi.runFrom_nil hhead
  | succ fuel ih =>
      cases l₂ with
      | nil => exact hi.runFrom_nil hhead
      | cons x rest =>
          obtain ⟨p, hp, rfl, hcell, hi₁⟩ := hi.fire ho
          have hhead₁ : head = ((l₁ ++ [p.addr]) ++ rest).head? := by
            rw [hhead, List.append_assoc]
            rfl
          have hok₁ := hok _ (deref_eq hcell)
          rw [List.head?_cons, EvTimer.runFrom, deref_eq hcell, ok_bind]
          cases hcb : p.cbfunc with
          | none =>
              simp only [hcb] at hok₁
              rw [hcb, firing, Option.toList_none, List.map_nil, List.append_nil] at hi₁
              exact ih hi₁ hhead₁ hok₁ (Nat.le_of_succ_le_succ hfuel)
          | some cb =>
              simp only [hcb] at hok₁
              rw [hcb] at hi₁
              obtain ⟨hcalls, hrest⟩ := hok₁
              obtain ⟨t₁, evs₁, B₁, pend₁, m₁, m₂, hrun₁, hsame₁, hi₂, hspared⟩ :=
                hi₁.calls ho hcalls fun t handle h => by
                  rw [← hhead₁]
                  exact hpolicy head rest.head? t handle h
              have hlen : m₂.length ≤ fuel :=
                Nat.le_trans hspared.length (Nat.le_of_succ_le_succ hfuel)
              have hok₂ := hrest t₁ evs₁ hrun₁
              rw [← hspared.next] at hok₂
              obtain ⟨t₂, evs₂, B₂, pend₂, l₁', hrun₂, hsame₂, hi₃, hhead'⟩ :=
                ih hi₂ (hhead₁.trans hspared.head.symm) hok₂ hlen
              rw [hspared.next] at hrun₂
              refine ⟨t₂, .fired t.ticknow cb p.handle p.data :: evs₁ ++ evs₂, B₂, pend₂, l₁', ?_,
                hsame₁.trans hsame₂, ?_, hhead'⟩
              · dsimp only
                rw [hrun₁, ok_bind]
                dsimp only
                rw [hrun₂]
                rfl
              · simpa [firing, List.append_assoc] using hi₃

lemma exists_timers {l : List ℕ} (h : ∀ a ∈ l, ∃ p ∈ pend, p.addr = a) :
    ∃ gone, gone ⊆ pend ∧ l = gone.map PTimer.addr := by
  induction l with
  | nil => exact ⟨[], List.nil_subset _, rfl⟩
  | cons a l ih =>
      obtain ⟨p, hp, rfl⟩ := h a List.mem_cons_self
      obtain ⟨gone, hsub, rfl⟩ := ih fun b hb => h b (List.mem_cons_of_mem p.addr hb)
      exact ⟨p :: gone, List.cons_subset.mpr ⟨hp, hsub⟩, rfl⟩

/-- **The end of a tick**: all of the current bucket has been run, and it is deleted. -/
lemma Inv.deleteBucket (hi : Inv I L t B pend l₁ [] tr) (ho : Observes accept late I L) :
    ∃ t' t'' evs B' pend', deleteFrom t.entries.bound t l₁.head? = .ok (t', evs) ∧
      t'.setWheel 0 (t'.slotNow 0) none = .ok t'' ∧ SameTime t t'' ∧
      Inv I L t'' B' pend' [] [] (tr ++ evs) := by
  have hbucket : B (due t.ticknow) = l₁ := by rw [hi.bucket, List.append_nil]
  have hran : ∀ a ∈ l₁, ∃ p ∈ pend, p.addr = a := fun a ha => by
    obtain ⟨p, hp, hpa, -⟩ := hi.exists_of_mem (List.mem_append_left [] ha)
    exact ⟨p, hp, hpa⟩
  obtain ⟨gone, hsub, hgone⟩ := exists_timers hran
  obtain ⟨t', t'', hdel, hset, hsame', hsame, hhandle, hf⟩ := hi.filed.deleteBucket
    (c := due t.ticknow) (Nat.mod_lt _ (by decide)) (hbucket.trans hgone) hsub
  have hslot : t'.slotNow 0 = (due t.ticknow).2 := by
    rw [hsame'.slotNow, hi.position.first]
    rfl
  rw [hbucket] at hdel
  refine ⟨t', t'', _, _, _, hdel, hslot ▸ hset, hsame,
    hi.of_sameTime hsame hf ?_ (Function.update_self ..) ?_⟩
  · rw [hhandle]
    refine ho.free hi.record hsub ?_ ?_ ?_
    · have hnodup := hi.nodup
      rw [List.append_nil, hgone] at hnodup
      rw [List.nodup_map_iff_inj_on hnodup.of_map]
      exact fun p hp q hq => hi.filed.books.eq_of_handle (hsub hp) (hsub hq)
    · intro p hp
      have hmem : p.addr ∈ l₁ := hgone ▸ List.mem_map_of_mem hp
      exact ⟨hmem, Nat.le_of_eq ((hi.mem_bucket (hsub hp)).mp (List.mem_append_left [] hmem))⟩
    · intro p hp hmem
      obtain ⟨hp, hnot⟩ := mem_without.mp hp
      rw [hgone] at hmem
      obtain ⟨q, hq, hqa⟩ := List.mem_map.mp hmem
      rw [hi.filed.books.eq_of_addr (hsub hq) hp hqa] at hq
      exact hnot (List.mem_map_of_mem hq)
  · exact fun p hp => hi.not_past p (mem_without.mp hp).1

/-- **A tick up to the callbacks** keeps the invariant; the current bucket is still to be run. -/
lemma Inv.advance (hi : Inv I L t B pend [] [] tr) (ho : Observes accept late I L)
    (hn : t.ticknow + 1 < 2 ^ 30 + 2 ^ 20) :
    ∃ t' B' l₂, t.advance = .ok t' ∧ t'.ticknow = t.ticknow + 1 ∧
      t'.wheelAt 0 (t'.slotNow 0) = .ok l₂.head? ∧ Inv I L t' B' pend [] l₂ tr := by
  obtain ⟨t', B', slotNow, hadv, hat, hsame, hhandle, hf⟩ :=
    hi.filed.advance hi.position rfl hi.ahead hn
  have hnow : t'.ticknow = t.ticknow + 1 := hsame.ticknow
  have hpos : t'.slotNow = slotNow := hsame.slotNow
  refine ⟨t', B', B' (due (t.ticknow + 1)), hadv, hnow, ?_, hf, ?_, ?_,
    hsame.tickInterval.trans hi.interval, hi.pos, ?_, ?_, ?_⟩
  · rw [hpos, hat.first]
    have hslot : (due (t.ticknow + 1)).2 < slotPerWheel := Nat.mod_lt _ (by decide)
    refine (wheelAt_eq (i := due (t.ticknow + 1)) (Nat.le_of_lt hslot)).trans ?_
    rw [(hf.chains.chain _).head_eq]
  · rw [hpos, hnow]
    exact hat
  · rw [hnow]
    exact hn
  · rw [hnow, hhandle]
    exact ho.mono hi.record (Nat.le_succ _)
  · rw [hnow, List.nil_append]
  · rw [hnow]
    exact hi.ahead

/-- **A tick** keeps the invariant. -/
lemma Inv.processTick {policy : Policy} {env : ℕ → List TimerCall}
    (hi : Inv I L t B pend [] [] tr) (ho : Observes accept late I L) (hpolicy : Sparing policy late)
    (hok : TickFits accept policy tr t env) (hn : t.ticknow + 1 < 2 ^ 30 + 2 ^ 20) :
    ∃ t' evs B' pend', t.processTick env = .ok (t', evs) ∧ t'.ticknow = t.ticknow + 1 ∧
      Inv I L t' B' pend' [] [] (tr ++ evs) := by
  obtain ⟨t₁, B₁, l₂, hadv, hnow, hhead, hi₁⟩ := hi.advance ho hn
  rw [EvTimer.processTick, hadv, ok_bind, hhead, ok_bind]
  cases l₂ with
  | nil =>
      refine ⟨t₁, [], B₁, pend, if_pos rfl, hnow, ?_⟩
      rwa [List.append_nil]
  | cons x l₂ =>
      have hlen : (x :: l₂).length ≤ t₁.entries.bound := by
        refine Heap.length_le_bound hi₁.nodup fun a ha => ?_
        obtain ⟨p, hp, rfl, -⟩ := hi₁.exists_of_mem ha
        exact hi₁.filed.books.live hp
      obtain ⟨t₂, evs₁, B₂, pend₂, l₁, hrun, hsame₂, hi₂, hhead₂⟩ :=
        hi₁.runFrom ho hpolicy (show (x :: l₂).head? = ([] ++ x :: l₂).head? from rfl)
          (hok t₁ _ hadv hhead) hlen
      obtain ⟨t₃, t₄, evs₂, B₄, pend₄, hdel, hset, hsame₄, hi₄⟩ := hi₂.deleteBucket ho
      rw [hhead₂] at hdel
      refine ⟨t₄, evs₁ ++ evs₂, B₄, pend₄, ?_, ?_, ?_⟩
      · rw [if_neg (by simp), hrun, ok_bind]
        dsimp only
        rw [hdel, ok_bind]
        dsimp only
        rw [hset]
        rfl
      · rw [hsame₄.ticknow, hsame₂.ticknow, hnow]
      · rwa [← List.append_assoc]

/-- **What a run keeps.** -/
lemma Leads.inv {policy : Policy} {t₀ : EvTimer} {tr₀ : List TimerEvent}
    (hr : Leads accept policy t₀ tr₀ t tr) (ho : Observes accept late I L)
    (hpolicy : Sparing policy late) (hi : ∃ B pend, Inv I L t₀ B pend [] [] tr₀) :
    ∃ B pend, Inv I L t B pend [] [] tr := by
  induction hr with
  | refl => exact hi
  | call _ haccept hcall ih =>
      obtain ⟨B, pend, hi⟩ := ih
      obtain ⟨t', evs, B', pend', l₁', l₂', hcall', -, hi', hspared⟩ :=
        hi.call ho haccept (by simp)
      obtain ⟨rfl, rfl⟩ := Prod.mk.inj (Except.ok.inj (hcall.symm.trans hcall'))
      have hnil : l₁' = [] ∧ l₂' = [] := by
        simpa [List.head?_eq_none_iff] using hspared.head
      rw [hnil.1, hnil.2] at hi'
      exact ⟨B', pend', hi'⟩
  | @tick t t' tr evs env _ hok htick ih =>
      obtain ⟨B, pend, hi⟩ := ih
      have hsmall := hi.small
      by_cases hn : t.ticknow + 1 < 2 ^ 30 + 2 ^ 20
      · obtain ⟨t'', evs', B', pend', htick', -, hi'⟩ := hi.processTick ho hpolicy hok hn
        obtain ⟨rfl, rfl⟩ := Prod.mk.inj (Except.ok.inj (htick.symm.trans htick'))
        exact ⟨B', pend', hi'⟩
      · have hlast : t.ticknow = 2 ^ 30 + 2 ^ 20 - 1 := by omega
        rw [EvTimer.processTick, advance_error (hlast ▸ hi.position) (hi.filed.behind 1)] at htick
        exact absurd htick (by simp [Bind.bind, Except.bind])

/-- No admitted call and no tick below the upper limit fails. -/
lemma Inv.progress (hi : Inv I L t B pend [] [] tr) (ho : Observes accept late I L)
    {policy : Policy} (hpolicy : Sparing policy late) :
    (∀ c, accept tr t c → ∃ t' evs, t.call c = .ok (t', evs)) ∧
      ∀ env, TickFits accept policy tr t env → t.ticknow + 1 < 2 ^ 30 →
        ∃ t' evs, t.processTick env = .ok (t', evs) ∧ t'.ticknow = t.ticknow + 1 := by
  constructor
  · intro c haccept
    obtain ⟨t', evs, -, -, -, -, hcall, -⟩ := hi.call ho haccept (by simp)
    exact ⟨t', evs, hcall⟩
  · intro env hok hn
    obtain ⟨t', evs, -, -, htick, hnow, -⟩ := hi.processTick ho hpolicy hok (by omega)
    exact ⟨t', evs, htick, hnow⟩

/-- A new timer, for any record that holds of the empty run. -/
lemma inv_new {os : Libc} {buf : ℕ} (hos : os.Total) (hpos : 0 < I) (hL : L 0 0 [] [] []) :
    ∃ t, EvTimer.new os buf I = .ok t ∧ Inv I L t (fun _ => []) [] [] [] [] := by
  obtain ⟨m, hm, -, hs⟩ := HmapT.Stores.new (K := ℤ) (V := ℕ) hos (n := kEntryPoolSize * 3)
    (by decide) (by decide)
  obtain ⟨pool, entries, hp, -, -, ho⟩ := @MemPool.owns_new TimerEntry _ kEntryPoolSize os hos buf
    40 ⟨0, none, 0, none, none⟩ (by decide) (by decide) (by decide)
  have hnew : EvTimer.new os buf I =
      .ok ⟨0, I, 0, fun _ => 0, m, pool, entries, fun _ => none⟩ := by
    rw [EvTimer.new, hm, ok_bind, hp]
    rfl
  refine ⟨_, hnew, ⟨⟨by simp, by simp, ⟨[], _, hs, rfl⟩, _, ho⟩, ?_, by simp, by simp⟩,
    ⟨rfl, by simp, by simp⟩, ?_, rfl, hpos, hL, rfl, by simp⟩
  · exact ⟨fun _ => rfl, by simp⟩
  · show 0 < 2 ^ 30 + 2 ^ 20
    omega

end Inv

end EvTimer

end Axon
