import Axon.Core.TimerTick
import Axon.Core.TimerSerials

/-!
# Histories of timers

What can be observed of one timer, told apart by its handle.

* **`EvTimer.history`** : the events of a trace about one handle.
* **`EvTimer.Settled`** : the histories of timers that are over: fired and freed, or cancelled.
* **`EvTimer.Lives`** : the histories of all handles, given the timers that are pending and which of
  them the current tick has run already: a handle that has come round has had one timer after
  another.
* **`EvTimer.Lives.add`**, **`EvTimer.Lives.del`**, **`EvTimer.Lives.fire`**,
  **`EvTimer.Lives.free`** : one lemma for each kind of event.
* **`EvTimer.Ledger`** : the histories while no handle has come round.
* **`EvTimer.Ledger.cases`** : the four histories a timer can have between two calls, from which the
  properties of traces follow.
-/

namespace Axon

open Library

namespace EvTimer

/-- An event about a handle.  A `del_timer` that fails is not about any timer. -/
def names (h : ℤ) : TimerEvent → Bool
  | .added _ _ h' _ _ => h' = h
  | .deleted h' ret => h' = h ∧ ret = 0
  | .fired _ _ h' _ => h' = h
  | .freed h' => h' = h

/-- **The history of a timer.** -/
def history (h : ℤ) (tr : List TimerEvent) : List TimerEvent := tr.filter (names h)

/-- The invocation of the callback of a timer, if it has one. -/
def firing (tick : ℕ) (cbfunc : Option ℕ) (h : ℤ) (data : Option ℕ) : List TimerEvent :=
  cbfunc.toList.map fun cb => .fired tick cb h data

/-- **The history of a timer that is over.**  `late` says whether timers may be cancelled in the
tick that has invoked them already. -/
inductive Settled (late : Prop) (tickInterval now : ℕ) (h : ℤ) : List TimerEvent → Prop where
  | fired (n timeout : ℕ) (cbfunc data : Option ℕ) (hle : expiry tickInterval n timeout ≤ now) :
      Settled late tickInterval now h
        (.added n timeout h cbfunc data ::
          (firing (expiry tickInterval n timeout) cbfunc h data ++ [.freed h]))
  | cancelled (n timeout : ℕ) (cbfunc data : Option ℕ) :
      Settled late tickInterval now h [.added n timeout h cbfunc data, .deleted h 0]
  | late (n timeout : ℕ) (cbfunc data : Option ℕ) (hlate : late)
      (hle : expiry tickInterval n timeout ≤ now) :
      Settled late tickInterval now h
        (.added n timeout h cbfunc data ::
          (firing (expiry tickInterval n timeout) cbfunc h data ++ [.deleted h 0]))

/-- The handles given out. -/
def handles (tr : List TimerEvent) : List ℤ :=
  tr.filterMap fun e => match e with
    | .added _ _ h _ _ => some h
    | _ => none

/-- **The history of a handle without its present timer**: timers that are over, one after
another. -/
inductive Past (late : Prop) (tickInterval now : ℕ) (h : ℤ) : List TimerEvent → Prop where
  | nil : Past late tickInterval now h []
  | settled {l l' : List TimerEvent} : Past late tickInterval now h l →
      Settled late tickInterval now h l' → Past late tickInterval now h (l ++ l')

/-- **The lives of timers**: `k` is the handle of the last `add_timer`, the timers in `pend` are
pending, and of these the ones whose entries are in `ran` have been run by the current tick. -/
structure Lives (late : Prop) (tickInterval now : ℕ) (k : ℤ) (pend : List PTimer) (ran : List ℕ)
    (tr : List TimerEvent) : Prop where
  handle : k = handleOf (adds tr)
  given : handles tr = (List.range (adds tr)).map fun i => handleOf (i + 1)
  serial : ∀ x ∈ pendingAdds tr, 0 < x.1 ∧ x.1 ≤ adds tr ∧ x.2 = handleOf x.1
  named : (pendingAdds tr).map Prod.snd = pend.map PTimer.handle
  pending : ∀ p ∈ pend, ∃ past n timeout, Past late tickInterval now p.handle past ∧
    p.tick = expiry tickInterval n timeout ∧
    history p.handle tr = past ++ .added n timeout p.handle p.cbfunc p.data ::
      if p.addr ∈ ran then firing p.tick p.cbfunc p.handle p.data else []
  settled : ∀ h, h ∉ pend.map PTimer.handle → Past late tickInterval now h (history h tr)

/-- **The ledger**: `k` handles have been given out, those of the timers in `pend` are pending, and
of these the ones whose entries are in `ran` have been run by the current tick. -/
structure Ledger (late : Prop) (tickInterval now : ℕ) (k : ℤ) (pend : List PTimer) (ran : List ℕ)
    (tr : List TimerEvent) : Prop where
  nonneg : 0 ≤ k
  range : ∀ p ∈ pend, 0 < p.handle ∧ p.handle ≤ k
  unused : ∀ h, h ≤ 0 ∨ k < h → history h tr = []
  pending : ∀ p ∈ pend, ∃ n timeout, p.tick = expiry tickInterval n timeout ∧
    history p.handle tr = .added n timeout p.handle p.cbfunc p.data ::
      if p.addr ∈ ran then firing p.tick p.cbfunc p.handle p.data else []
  settled : ∀ h, 0 < h → h ≤ k → h ∉ pend.map PTimer.handle →
    Settled late tickInterval now h (history h tr)

section History

variable {h : ℤ} {tr evs : List TimerEvent} {e : TimerEvent}

lemma mem_firing {tick : ℕ} {cbfunc data : Option ℕ} :
    e ∈ firing tick cbfunc h data ↔ ∃ cb, cbfunc = some cb ∧ .fired tick cb h data = e := by
  simp [firing, eq_comm]

@[simp] lemma history_append : history h (tr ++ evs) = history h tr ++ history h evs :=
  List.filter_append ..

/-- Events about others. -/
lemma history_append_of_not (hnot : ∀ e ∈ evs, names h e = false) :
    history h (tr ++ evs) = history h tr := by
  have hnil : history h evs = [] := List.filter_eq_nil_iff.mpr fun e he => by simp [hnot e he]
  rw [history_append, hnil, List.append_nil]

/-- Events about this one. -/
lemma history_append_of_names (hall : ∀ e ∈ evs, names h e = true) :
    history h (tr ++ evs) = history h tr ++ evs := by
  rw [history_append, history, history, List.filter_eq_self.mpr hall]

lemma names_firing {tick : ℕ} {cbfunc data : Option ℕ} {h' : ℤ}
    (he : e ∈ firing tick cbfunc h' data) : names h e = decide (h' = h) := by
  obtain ⟨cb, -, rfl⟩ := mem_firing.mp he
  rfl

/-- Of the entries a tick gives back one is that of the timer. -/
lemma history_freed {gone : List PTimer} (hnodup : (gone.map PTimer.handle).Nodup)
    (hmem : h ∈ gone.map PTimer.handle) :
    history h (gone.map fun q => .freed q.handle) = [.freed h] := by
  have hmap : (gone.map fun q => TimerEvent.freed q.handle) =
      (gone.map PTimer.handle).map .freed := by simp
  have hcount : (gone.map PTimer.handle).filter (fun h' => decide (h' = h)) = [h] := by
    rw [List.filter_eq, List.count_eq_one_of_mem hnodup hmem]
    rfl
  rw [hmap, history, List.filter_map]
  exact congrArg (List.map TimerEvent.freed) hcount

end History

/-! ## One event after another -/

section Lives

variable {late : Prop} {tickInterval now : ℕ} {k : ℤ} {pend gone : List PTimer} {ran ran' : List ℕ}
  {tr evs : List TimerEvent} {p : PTimer} {h : ℤ}

@[simp] lemma handles_append : handles (tr ++ evs) = handles tr ++ handles evs :=
  List.filterMap_append

@[simp] lemma handles_added {n timeout : ℕ} {cbfunc data : Option ℕ} :
    handles (.added n timeout h cbfunc data :: tr) = h :: handles tr := rfl

@[simp] lemma handles_firing {tick : ℕ} {cbfunc data : Option ℕ} :
    handles (firing tick cbfunc h data) = [] := by
  cases cbfunc <;> rfl

lemma serials_firing {tick : ℕ} {cbfunc data : Option ℕ} :
    serials (tr ++ firing tick cbfunc h data) = serials tr := by
  refine serials_fired fun e he => ?_
  obtain ⟨cb, -, rfl⟩ := mem_firing.mp he
  exact ⟨_, cb, _, _, rfl⟩

lemma adds_firing {tick : ℕ} {cbfunc data : Option ℕ} :
    adds (tr ++ firing tick cbfunc h data) = adds tr := by rw [adds, serials_firing, adds]

lemma serials_gone : serials (tr ++ gone.map fun q => .freed q.handle) =
    (adds tr, (pendingAdds tr).filter fun x => x.2 ∉ gone.map PTimer.handle) := by
  have hmap : (gone.map PTimer.handle).map TimerEvent.freed = gone.map fun q => .freed q.handle :=
    List.map_map ..
  rw [← hmap, serials_freed]

lemma adds_gone : adds (tr ++ gone.map fun q => .freed q.handle) = adds tr := by
  rw [adds, serials_gone]

lemma lives_nil : Lives late tickInterval now 0 [] [] [] :=
  ⟨rfl, rfl, by simp, rfl, by simp, fun _ _ => .nil⟩

lemma Settled.mono {l : List TimerEvent} {now' : ℕ} (hs : Settled late tickInterval now h l)
    (hle : now ≤ now') : Settled late tickInterval now' h l := by
  cases hs with
  | fired n timeout cbfunc data hT => exact .fired n timeout cbfunc data (Nat.le_trans hT hle)
  | cancelled n timeout cbfunc data => exact .cancelled n timeout cbfunc data
  | late n timeout cbfunc data hlate hT =>
      exact .late n timeout cbfunc data hlate (Nat.le_trans hT hle)

lemma Past.mono {l : List TimerEvent} {now' : ℕ} (hp : Past late tickInterval now h l)
    (hle : now ≤ now') : Past late tickInterval now' h l := by
  induction hp with
  | nil => exact .nil
  | settled _ hs ih => exact ih.settled (hs.mono hle)

/-- Time passes. -/
lemma Lives.mono (hl : Lives late tickInterval now k pend ran tr) {now' : ℕ} (hle : now ≤ now') :
    Lives late tickInterval now' k pend ran tr :=
  { hl with
    pending := fun p hp => by
      obtain ⟨past, n, timeout, hpast, hrest⟩ := hl.pending p hp
      exact ⟨past, n, timeout, hpast.mono hle, hrest⟩
    settled := fun h hnot => (hl.settled h hnot).mono hle }

/-- The handle `add_timer` returns next. -/
lemma Lives.nextHandle_eq (hl : Lives late tickInterval now k pend ran tr) :
    nextHandle k = handleOf (adds tr + 1) := by
  rw [hl.handle, nextHandle_handleOf]

/-- **The next handle is pending** exactly when it has come round to a pending timer. -/
lemma Lives.fresh_iff (hl : Lives late tickInterval now k pend ran tr) :
    nextHandle k ∉ pend.map PTimer.handle ↔ Unclashed tr := by
  rw [← hl.named, hl.nextHandle_eq]
  constructor
  · intro hnot x hx hdvd
    obtain ⟨hpos, hle, hname⟩ := hl.serial x hx
    refine hnot (List.mem_map.mpr ⟨x, hx, ?_⟩)
    rw [hname, (handleOf_eq_iff hpos (Nat.le_succ_of_le hle)).mpr hdvd]
  · intro hfree hmem
    obtain ⟨x, hx, heq⟩ := List.mem_map.mp hmem
    obtain ⟨hpos, hle, hname⟩ := hl.serial x hx
    refine hfree x hx ((handleOf_eq_iff hpos (Nat.le_succ_of_le hle)).mp ?_)
    rw [← heq, hname]

/-- A timer is added. -/
lemma Lives.add (hl : Lives late tickInterval now k pend ran tr) {a timeout : ℕ}
    {cbfunc data : Option ℕ} (hfree : Unclashed tr) (ha : a ∉ ran) :
    Lives late tickInterval now (nextHandle k)
      (⟨a, nextHandle k, cbfunc, expiry tickInterval now timeout, data⟩ :: pend) ran
      (tr ++ [.added now timeout (nextHandle k) cbfunc data]) := by
  have hnot := hl.fresh_iff.mpr hfree
  have hnext := hl.nextHandle_eq
  have hother : ∀ h, h ≠ nextHandle k →
      history h (tr ++ [.added now timeout (nextHandle k) cbfunc data]) = history h tr :=
    fun h hne => by
      refine history_append_of_not fun e he => ?_
      obtain rfl := List.mem_singleton.mp he
      exact decide_eq_false hne.symm
  refine ⟨by rw [adds_added, hnext], ?_, ?_, ?_, ?_, ?_⟩
  · rw [handles_append, hl.given, adds_added, List.range_succ, List.map_append, hnext]
    rfl
  · intro x hx
    rw [pendingAdds_added] at hx
    rw [adds_added]
    rcases List.mem_cons.mp hx with rfl | hx
    · exact ⟨Nat.succ_pos _, Nat.le_refl _, hnext⟩
    · obtain ⟨hpos, hle, hname⟩ := hl.serial x hx
      exact ⟨hpos, Nat.le_succ_of_le hle, hname⟩
  · rw [pendingAdds_added, List.map_cons, List.map_cons, hl.named]
  · intro q hq
    rcases List.mem_cons.mp hq with rfl | hq
    · refine ⟨_, now, timeout, hl.settled _ hnot, rfl, ?_⟩
      rw [if_neg ha, history_append_of_names (by simp [names])]
    · obtain ⟨past, n, timeout', hpast, htick, hhist⟩ := hl.pending q hq
      refine ⟨past, n, timeout', hpast, htick, ?_⟩
      rw [hother _ fun he => hnot (he ▸ List.mem_map_of_mem hq), hhist]
  · intro h hh
    simp only [List.map_cons, List.mem_cons, not_or] at hh
    rw [hother h hh.1]
    exact hl.settled h hh.2

/-- A `del_timer` has failed. -/
lemma Lives.del_none (hl : Lives late tickInterval now k pend ran tr) (h : ℤ) :
    Lives late tickInterval now k pend ran (tr ++ [.deleted h (-1)]) := by
  have hsame : ∀ h', history h' (tr ++ [.deleted h (-1)]) = history h' tr :=
    fun h' => history_append_of_not (by simp [names])
  have hadds : adds (tr ++ [.deleted h (-1)]) = adds tr := by rw [adds, serials_deleted_none, adds]
  have hpend : pendingAdds (tr ++ [.deleted h (-1)]) = pendingAdds tr := by
    rw [pendingAdds, serials_deleted_none, pendingAdds]
  refine ⟨?_, ?_, ?_, ?_, ?_, ?_⟩
  all_goals simp only [hsame, hadds, hpend, handles_append]
  · exact hl.handle
  · rw [hl.given]
    exact List.append_nil _
  · exact hl.serial
  · exact hl.named
  · exact hl.pending
  · exact hl.settled

/-- A pending timer is cancelled. -/
lemma Lives.del (hl : Lives late tickInterval now k pend ran tr) (hp : p ∈ pend)
    (hlate : p.addr ∈ ran → late ∧ p.tick ≤ now)
    (hran : ∀ q ∈ pend, q.handle ≠ p.handle → (q.addr ∈ ran' ↔ q.addr ∈ ran)) :
    Lives late tickInterval now k (pend.filter fun q => q.handle ≠ p.handle) ran'
      (tr ++ [.deleted p.handle 0]) := by
  have hother : ∀ h, h ≠ p.handle → history h (tr ++ [.deleted p.handle 0]) = history h tr :=
    fun h hne => by
      refine history_append_of_not fun e he => ?_
      obtain rfl := List.mem_singleton.mp he
      exact decide_eq_false fun hh => hne hh.1.symm
  have hadds : adds (tr ++ [.deleted p.handle 0]) = adds tr := by rw [adds, serials_deleted]
  have hpend : pendingAdds (tr ++ [.deleted p.handle 0]) =
      (pendingAdds tr).filter fun x => x.2 ≠ p.handle := by rw [pendingAdds, serials_deleted]
  refine ⟨by rw [hadds, hl.handle], ?_, ?_, ?_, ?_, ?_⟩
  · rw [handles_append, hadds, hl.given]
    exact List.append_nil _
  · rw [hadds, hpend]
    exact fun x hx => hl.serial x (List.mem_filter.mp hx).1
  · have hfilter := congrArg (List.filter fun h => decide (h ≠ p.handle)) hl.named
    rw [List.filter_map, List.filter_map] at hfilter
    rw [hpend]
    exact hfilter
  · intro q hq
    obtain ⟨hq, hne⟩ := List.mem_filter.mp hq
    obtain ⟨past, n, timeout, hpast, htick, hhist⟩ := hl.pending q hq
    refine ⟨past, n, timeout, hpast, htick, ?_⟩
    rw [hother _ (of_decide_eq_true hne), hhist]
    simp only [hran q hq (of_decide_eq_true hne)]
  · intro h hnot
    rcases eq_or_ne h p.handle with rfl | hne
    · obtain ⟨past, n, timeout, hpast, htick, hhist⟩ := hl.pending p hp
      rw [history_append_of_names (by simp [names]), hhist, List.append_assoc]
      refine hpast.settled ?_
      split_ifs with hmem
      · obtain ⟨hlate, hle⟩ := hlate hmem
        rw [htick] at hle ⊢
        exact .late n timeout p.cbfunc p.data hlate hle
      · exact .cancelled n timeout p.cbfunc p.data
    · rw [hother h hne]
      refine hl.settled h fun hmem => hnot ?_
      obtain ⟨q, hq, rfl⟩ := List.mem_map.mp hmem
      exact List.mem_map_of_mem (List.mem_filter.mpr ⟨hq, decide_eq_true hne⟩)

/-- The callback of a pending timer is invoked. -/
lemma Lives.fire (hl : Lives late tickInterval now k pend ran tr) (hp : p ∈ pend)
    (hnot : p.addr ∉ ran) (hhandle : ∀ q ∈ pend, q.handle = p.handle → q = p)
    (haddr : ∀ q ∈ pend, q.addr = p.addr → q = p) :
    Lives late tickInterval now k pend (ran ++ [p.addr])
      (tr ++ firing p.tick p.cbfunc p.handle p.data) := by
  have hother : ∀ h, h ≠ p.handle →
      history h (tr ++ firing p.tick p.cbfunc p.handle p.data) = history h tr := fun h hne =>
    history_append_of_not fun e he => (names_firing he).trans (decide_eq_false hne.symm)
  have hadds : adds (tr ++ firing p.tick p.cbfunc p.handle p.data) = adds tr := adds_firing
  have hpend : pendingAdds (tr ++ firing p.tick p.cbfunc p.handle p.data) = pendingAdds tr := by
    rw [pendingAdds, serials_firing, pendingAdds]
  refine ⟨by rw [hadds, hl.handle], ?_, ?_, by rw [hpend, hl.named], ?_, ?_⟩
  · rw [handles_append, handles_firing, List.append_nil, hadds, hl.given]
  · rw [hadds, hpend]
    exact hl.serial
  · intro q hq
    obtain ⟨past, n, timeout, hpast, htick, hhist⟩ := hl.pending q hq
    refine ⟨past, n, timeout, hpast, htick, ?_⟩
    rcases eq_or_ne q p with rfl | hqp
    · rw [history_append_of_names fun e he => (names_firing he).trans (decide_eq_true rfl), hhist,
        if_neg hnot, if_pos (by simp), List.append_assoc]
      rfl
    · have hne : q.addr ≠ p.addr := fun he => hqp (haddr q hq he)
      rw [hother _ fun he => hqp (hhandle q hq he), hhist]
      simp [hne]
  · intro h hnot'
    rw [hother h fun he => hnot' (he ▸ List.mem_map_of_mem hp)]
    exact hl.settled h hnot'

/-- The timers the tick has run are given up. -/
lemma Lives.free (hl : Lives late tickInterval now k pend ran tr) (hsub : gone ⊆ pend)
    (hnodup : (gone.map PTimer.handle).Nodup)
    (hran : ∀ p ∈ gone, p.addr ∈ ran ∧ p.tick ≤ now)
    (hrest : ∀ p ∈ without pend gone, p.addr ∉ ran) :
    Lives late tickInterval now k (without pend gone) []
      (tr ++ gone.map fun q => .freed q.handle) := by
  have hother : ∀ h, h ∉ gone.map PTimer.handle →
      history h (tr ++ gone.map fun q => .freed q.handle) = history h tr := fun h hnot => by
    refine history_append_of_not fun e he => ?_
    obtain ⟨q, hq, rfl⟩ := List.mem_map.mp he
    exact decide_eq_false fun he => hnot (he ▸ List.mem_map_of_mem hq)
  have hadds : adds (tr ++ gone.map fun q => .freed q.handle) = adds tr := adds_gone
  have hpend : pendingAdds (tr ++ gone.map fun q => .freed q.handle) =
      (pendingAdds tr).filter fun x => x.2 ∉ gone.map PTimer.handle := by
    rw [pendingAdds, serials_gone]
  refine ⟨by rw [hadds, hl.handle], ?_, ?_, ?_, ?_, ?_⟩
  · have hnil : handles (gone.map fun q => .freed q.handle) = [] := by
      refine List.filterMap_eq_nil_iff.mpr fun e he => ?_
      obtain ⟨q, -, rfl⟩ := List.mem_map.mp he
      rfl
    rw [handles_append, hnil, List.append_nil, hadds, hl.given]
  · rw [hadds, hpend]
    exact fun x hx => hl.serial x (List.mem_filter.mp hx).1
  · have hfilter := congrArg (List.filter fun h => decide (h ∉ gone.map PTimer.handle)) hl.named
    rw [List.filter_map, List.filter_map] at hfilter
    rw [hpend]
    exact hfilter
  · intro q hq
    obtain ⟨past, n, timeout, hpast, htick, hhist⟩ := hl.pending q (mem_without.mp hq).1
    refine ⟨past, n, timeout, hpast, htick, ?_⟩
    rw [hother _ (mem_without.mp hq).2, hhist, if_neg (hrest q hq)]
    rfl
  · intro h hnot
    by_cases hmem : h ∈ gone.map PTimer.handle
    · obtain ⟨q, hq, rfl⟩ := List.mem_map.mp hmem
      obtain ⟨past, n, timeout, hpast, htick, hhist⟩ := hl.pending q (hsub hq)
      obtain ⟨hran, hnow⟩ := hran q hq
      rw [history_append, history_freed hnodup hmem, hhist, if_pos hran, List.append_assoc]
      rw [htick] at hnow ⊢
      exact hpast.settled (.fired n timeout q.cbfunc q.data hnow)
    · rw [hother h hmem]
      refine hl.settled h fun hh => hnot ?_
      obtain ⟨q, hq, rfl⟩ := List.mem_map.mp hh
      exact List.mem_map_of_mem (mem_without.mpr ⟨hq, hmem⟩)

end Lives

/-! ## No handle comes round -/

section Ledger

variable {late : Prop} {tickInterval now : ℕ} {k h : ℤ} {pend : List PTimer} {ran : List ℕ}
  {tr l : List TimerEvent}

/-- The history of a timer has the same additions of it as the trace. -/
lemma count_handles : (handles (history h tr)).count h = (handles tr).count h := by
  have hfilter : handles (history h tr) = (handles tr).filter fun h' => decide (h' = h) := by
    rw [handles, handles, history, List.filterMap_filter, List.filter_filterMap]
    refine List.filterMap_congr fun e _ => ?_
    cases e <;> simp [names, Option.filter]
  rw [hfilter, List.count_filter (by simp)]

/-- Each timer was added once. -/
lemma Settled.count_handles (hs : Settled late tickInterval now h l) :
    (handles l).count h = 1 := by
  cases hs with
  | fired n timeout cbfunc data _ =>
      rw [handles_added, handles_append, handles_firing]
      simp [handles]
  | cancelled n timeout cbfunc data => simp [handles]
  | late n timeout cbfunc data _ _ =>
      rw [handles_added, handles_append, handles_firing]
      simp [handles]

lemma Past.eq_nil (hp : Past late tickInterval now h l) (hcount : (handles l).count h = 0) :
    l = [] := by
  cases hp with
  | nil => rfl
  | settled _ hs =>
      rw [handles_append, List.count_append, hs.count_handles] at hcount
      exact absurd hcount (Nat.succ_ne_zero _)

lemma Past.settled_of_count (hp : Past late tickInterval now h l)
    (hcount : (handles l).count h = 1) : Settled late tickInterval now h l := by
  cases hp with
  | nil => simp [handles] at hcount
  | settled hp hs =>
      rw [handles_append, List.count_append, hs.count_handles] at hcount
      rw [hp.eq_nil (Nat.succ.inj hcount)]
      exact hs

/-- How often a handle has been given out. -/
lemma Lives.count_eq (hl : Lives late tickInterval now k pend ran tr) (hlt : adds tr < 2 ^ 31) :
    (handles (history h tr)).count h = if 0 < h ∧ h ≤ k then 1 else 0 := by
  have hgiven : handles tr = (List.range (adds tr)).map fun i : ℕ => (i : ℤ) + 1 := by
    rw [hl.given]
    refine List.map_congr_left fun i hi => ?_
    have := List.mem_range.mp hi
    rw [handleOf_eq_self (by omega)]
    rfl
  have hk : k = adds tr := by rw [hl.handle, handleOf_eq_self hlt]
  have hnodup : (handles tr).Nodup := by
    rw [hgiven]
    exact List.nodup_range.map fun i j hij => by simpa using hij
  have hmem : h ∈ handles tr ↔ 0 < h ∧ h ≤ k := by
    rw [hgiven, hk, List.mem_map]
    constructor
    · rintro ⟨i, hi, rfl⟩
      have := List.mem_range.mp hi
      omega
    · rintro ⟨hpos, hle⟩
      exact ⟨(h - 1).toNat, List.mem_range.mpr (by omega), by omega⟩
  rw [count_handles]
  split_ifs with hrange
  · exact List.count_eq_one_of_mem hnodup (hmem.mpr hrange)
  · exact List.count_eq_zero_of_not_mem (mt hmem.mp hrange)

/-- **The ledger** follows, while fewer than `2 ^ 31` timers have been added. -/
lemma Lives.ledger (hl : Lives late tickInterval now k pend ran tr) (hlt : adds tr < 2 ^ 31) :
    Ledger late tickInterval now k pend ran tr := by
  have hcount := fun h => hl.count_eq (h := h) hlt
  -- the present timer of a handle is its only one
  have honly : ∀ {h past n timeout cbfunc data l}, Past late tickInterval now h past →
      history h tr = past ++ .added n timeout h cbfunc data :: l →
      past = [] ∧ 0 < h ∧ h ≤ k := by
    intro h past n timeout cbfunc data l hpast hhist
    have hc := hcount h
    rw [hhist, handles_append, handles_added, List.count_append, List.count_cons_self] at hc
    split_ifs at hc with hrange
    exact ⟨hpast.eq_nil (by omega), hrange⟩
  have hpending : ∀ h, ¬ (0 < h ∧ h ≤ k) → h ∉ pend.map PTimer.handle := by
    intro h hnot hmem
    obtain ⟨p, hp, rfl⟩ := List.mem_map.mp hmem
    obtain ⟨past, n, timeout, hpast, -, hhist⟩ := hl.pending p hp
    exact hnot (honly hpast hhist).2
  refine ⟨?_, ?_, ?_, ?_, ?_⟩
  · rw [hl.handle, handleOf_eq_self hlt]
    exact Int.natCast_nonneg _
  · intro p hp
    by_contra hnot
    exact hpending p.handle hnot (List.mem_map_of_mem hp)
  · intro h hh
    have hnot : ¬ (0 < h ∧ h ≤ k) := by omega
    exact (hl.settled h (hpending h hnot)).eq_nil ((hcount h).trans (if_neg hnot))
  · intro p hp
    obtain ⟨past, n, timeout, hpast, htick, hhist⟩ := hl.pending p hp
    obtain ⟨rfl, -⟩ := honly hpast hhist
    exact ⟨n, timeout, htick, hhist⟩
  · intro h hpos hle hnot
    exact (hl.settled h hnot).settled_of_count ((hcount h).trans (if_pos ⟨hpos, hle⟩))

end Ledger

/-! ## What follows for traces -/

/-- The invocations of the callback of a timer. -/
def invocations (h : ℤ) (tr : List TimerEvent) : List TimerEvent :=
  tr.filter fun e => match e with
    | .fired _ _ h' _ => h' = h
    | _ => false

/-- **Every invocation is of a timer that was added**, in the tick it expires at and with its own
callback, handle and data. -/
def Owned (tickInterval : ℕ) (tr : List TimerEvent) : Prop :=
  ∀ n cb h data, .fired n cb h data ∈ tr →
    ∃ now timeout, .added now timeout h (some cb) data ∈ tr ∧ n = expiry tickInterval now timeout

/-- How often the entry of a timer has been returned to the pool: by a `del_timer` that has returned
0, or by `process_tick`. -/
def returns (h : ℤ) (tr : List TimerEvent) : ℕ :=
  tr.countP fun e => e = .deleted h 0 ∨ e = .freed h

section Traces

variable {late : Prop} {tickInterval now n timeout : ℕ} {k h : ℤ} {cbfunc data : Option ℕ}
  {pend : List PTimer} {tr : List TimerEvent}

lemma mem_history {e : TimerEvent} : e ∈ history h tr ↔ e ∈ tr ∧ names h e = true :=
  List.mem_filter

lemma deleted_mem_history : .deleted h 0 ∈ history h tr ↔ .deleted h 0 ∈ tr := by
  simp [mem_history, names]

lemma freed_mem_history : .freed h ∈ history h tr ↔ .freed h ∈ tr := by
  simp [mem_history, names]

lemma invocations_history : invocations h (history h tr) = invocations h tr := by
  rw [invocations, history, List.filter_filter]
  refine List.filter_congr fun e _ => ?_
  cases e <;> simp [names]

lemma returns_history : returns h (history h tr) = returns h tr := by
  rw [returns, history, List.countP_filter]
  refine List.countP_congr fun e _ => ?_
  cases e <;> simp [names]

@[simp] lemma invocations_nil : invocations h [] = [] := rfl

@[simp] lemma invocations_added {h' : ℤ} {l : List TimerEvent} :
    invocations h (.added n timeout h' cbfunc data :: l) = invocations h l := rfl

@[simp] lemma invocations_deleted {h' ret : ℤ} {l : List TimerEvent} :
    invocations h (.deleted h' ret :: l) = invocations h l := rfl

@[simp] lemma invocations_freed {h' : ℤ} {l : List TimerEvent} :
    invocations h (.freed h' :: l) = invocations h l := rfl

@[simp] lemma invocations_firing {tick : ℕ} {l : List TimerEvent} :
    invocations h (firing tick cbfunc h data ++ l) =
      firing tick cbfunc h data ++ invocations h l := by
  rw [invocations, List.filter_append, List.filter_eq_self.mpr]
  · rfl
  · intro e he
    obtain ⟨cb, -, rfl⟩ := mem_firing.mp he
    simp

@[simp] lemma returns_added {h' : ℤ} {l : List TimerEvent} :
    returns h (.added n timeout h' cbfunc data :: l) = returns h l := by
  simp [returns]

@[simp] lemma returns_firing {tick : ℕ} {l : List TimerEvent} :
    returns h (firing tick cbfunc h data ++ l) = returns h l := by
  rw [returns, List.countP_append, List.countP_eq_zero.mpr, Nat.zero_add]
  · rfl
  · intro e he
    obtain ⟨cb, -, rfl⟩ := mem_firing.mp he
    simp

lemma not_mem_firing {tick : ℕ} {e : TimerEvent} (he : ∀ cb, e ≠ .fired tick cb h data) :
    e ∉ firing tick cbfunc h data := fun hmem => by
  obtain ⟨cb, -, rfl⟩ := mem_firing.mp hmem
  exact he cb rfl

/-- Between two calls a handle has not been given out, or its timer is pending, or over. -/
lemma Ledger.history_cases (hl : Ledger late tickInterval now k pend [] tr) (h : ℤ) :
    history h tr = [] ∨
      (∃ p ∈ pend, p.handle = h ∧ ∃ n timeout, p.tick = expiry tickInterval n timeout ∧
        history h tr = [.added n timeout h p.cbfunc p.data]) ∨
      Settled late tickInterval now h (history h tr) := by
  by_cases hunused : h ≤ 0 ∨ k < h
  · exact Or.inl (hl.unused h hunused)
  by_cases hpend : h ∈ pend.map PTimer.handle
  · obtain ⟨p, hp, rfl⟩ := List.mem_map.mp hpend
    obtain ⟨n, timeout, htick, hhist⟩ := hl.pending p hp
    rw [if_neg List.not_mem_nil] at hhist
    exact Or.inr (Or.inl ⟨p, hp, rfl, n, timeout, htick, hhist⟩)
  · exact Or.inr (Or.inr (hl.settled h (by omega) (by omega) hpend))

/-- **The four histories** of a timer between two calls. -/
lemma Ledger.cases (hl : Ledger late tickInterval now k pend [] tr)
    (hadd : .added n timeout h cbfunc data ∈ tr) :
    (history h tr = [.added n timeout h cbfunc data] ∧
        ∃ p ∈ pend, p.handle = h ∧ p.tick = expiry tickInterval n timeout) ∨
      (expiry tickInterval n timeout ≤ now ∧ history h tr = .added n timeout h cbfunc data ::
        (firing (expiry tickInterval n timeout) cbfunc h data ++ [.freed h])) ∨
      history h tr = [.added n timeout h cbfunc data, .deleted h 0] ∨
      (late ∧ expiry tickInterval n timeout ≤ now ∧
        history h tr = .added n timeout h cbfunc data ::
          (firing (expiry tickInterval n timeout) cbfunc h data ++ [.deleted h 0])) := by
  have hmem : .added n timeout h cbfunc data ∈ history h tr :=
    mem_history.mpr ⟨hadd, decide_eq_true rfl⟩
  have hfirst : ∀ {n' timeout' cbfunc' data' l},
      history h tr = .added n' timeout' h cbfunc' data' :: l → (∀ e ∈ l, ∀ n timeout cbfunc data,
        e ≠ .added n timeout h cbfunc data) →
      n' = n ∧ timeout' = timeout ∧ cbfunc' = cbfunc ∧ data' = data := by
    intro n' timeout' cbfunc' data' l heq hl'
    rw [heq] at hmem
    rcases List.mem_cons.mp hmem with he | he
    · simp only [TimerEvent.added.injEq, true_and] at he
      exact ⟨he.1.symm, he.2.1.symm, he.2.2.1.symm, he.2.2.2.symm⟩
    · exact absurd rfl (hl' _ he n timeout cbfunc data)
  rcases hl.history_cases h with hnil | ⟨p, hp, rfl, n', timeout', htick, hhist⟩ | hset
  · rw [hnil] at hmem
    exact absurd hmem List.not_mem_nil
  · obtain ⟨rfl, rfl, hcb, hd⟩ := hfirst hhist (by simp)
    rw [hcb, hd] at hhist
    exact Or.inl ⟨hhist, p, hp, rfl, htick⟩
  · generalize hg : history h tr = l at hset
    have hfire : ∀ {tick : ℕ} {cbfunc data : Option ℕ} {last : TimerEvent},
        (∀ n timeout cbfunc data, last ≠ .added n timeout h cbfunc data) →
        ∀ e ∈ firing tick cbfunc h data ++ [last], ∀ n timeout cbfunc data,
          e ≠ .added n timeout h cbfunc data := by
      intro tick cbfunc data last hlast e he
      rcases List.mem_append.mp he with he | he
      · obtain ⟨cb, -, rfl⟩ := mem_firing.mp he
        simp
      · obtain rfl := List.mem_singleton.mp he
        exact hlast
    cases hset with
    | fired n' timeout' cbfunc' data' hle =>
        obtain ⟨rfl, rfl, rfl, rfl⟩ := hfirst hg (hfire (by simp))
        exact Or.inr (Or.inl ⟨hle, rfl⟩)
    | cancelled n' timeout' cbfunc' data' =>
        obtain ⟨rfl, rfl, rfl, rfl⟩ := hfirst hg (by simp)
        exact Or.inr (Or.inr (Or.inl rfl))
    | late n' timeout' cbfunc' data' hlate hle =>
        obtain ⟨rfl, rfl, rfl, rfl⟩ := hfirst hg (hfire (by simp))
        exact Or.inr (Or.inr (Or.inr ⟨hlate, hle, rfl⟩))

/-- No handle is given out twice. -/
lemma Ledger.handles_nodup (hl : Ledger late tickInterval now k pend [] tr) :
    (handles tr).Nodup := by
  refine List.nodup_iff_count_le_one.mpr fun h => ?_
  by_cases hmem : h ∈ handles tr
  · obtain ⟨e, he, hh⟩ := List.mem_filterMap.mp hmem
    cases e with
    | added n timeout h' cbfunc data =>
        obtain rfl := Option.some.inj hh
        rw [← count_handles]
        rcases hl.cases he with ⟨hh, -⟩ | ⟨-, hh⟩ | hh | ⟨-, -, hh⟩
        · rw [hh]
          simp [handles]
        · rw [hh, handles_added, handles_append, handles_firing]
          simp [handles]
        · rw [hh]
          simp [handles]
        · rw [hh, handles_added, handles_append, handles_firing]
          simp [handles]
    | _ => simp at hh
  · rw [List.count_eq_zero_of_not_mem hmem]
    exact Nat.zero_le 1

/-- A timer that is not cancelled is invoked when it expires, once. -/
lemma Ledger.invocations_of_not_deleted (hl : Ledger late tickInterval now k pend [] tr)
    (hahead : ∀ p ∈ pend, now < p.tick) (hadd : .added n timeout h cbfunc data ∈ tr)
    (hdel : .deleted h 0 ∉ tr) :
    invocations h tr = if expiry tickInterval n timeout ≤ now then
      firing (expiry tickInterval n timeout) cbfunc h data else [] := by
  rw [← deleted_mem_history] at hdel
  rw [← invocations_history]
  rcases hl.cases hadd with ⟨hh, p, hp, -, htick⟩ | ⟨hle, hh⟩ | hh | ⟨-, -, hh⟩
  · have := hahead p hp
    rw [hh, if_neg (by omega)]
    rfl
  · rw [hh, if_pos hle]
    simp
  · simp [hh] at hdel
  · simp [hh] at hdel

/-- In any case a timer is invoked at most once, and on time. -/
lemma Ledger.invocations_le (hl : Ledger late tickInterval now k pend [] tr)
    (hadd : .added n timeout h cbfunc data ∈ tr) :
    invocations h tr = [] ∨
      invocations h tr = firing (expiry tickInterval n timeout) cbfunc h data := by
  rw [← invocations_history]
  rcases hl.cases hadd with ⟨hh, -⟩ | ⟨-, hh⟩ | hh | ⟨-, -, hh⟩
  · exact Or.inl (by rw [hh]; rfl)
  · exact Or.inr (by rw [hh]; simp)
  · exact Or.inl (by rw [hh]; rfl)
  · exact Or.inr (by rw [hh]; simp)

/-- Where no timer is cancelled late, one that is cancelled is not invoked. -/
lemma Ledger.invocations_of_deleted (hl : Ledger False tickInterval now k pend [] tr)
    (hadd : .added n timeout h cbfunc data ∈ tr) (hdel : .deleted h 0 ∈ tr) :
    invocations h tr = [] := by
  rw [← deleted_mem_history] at hdel
  rw [← invocations_history]
  rcases hl.cases hadd with ⟨hh, -⟩ | ⟨-, hh⟩ | hh | ⟨hlate, -⟩
  · simp [hh] at hdel
  · rw [hh] at hdel
    have hnot : .deleted h 0 ∉ firing (expiry tickInterval n timeout) cbfunc h data :=
      not_mem_firing (by simp)
    simp [hnot] at hdel
  · rw [hh]
    rfl
  · exact hlate.elim

/-- The entry of a timer that has expired or is cancelled is back in the pool, once. -/
lemma Ledger.returns_eq (hl : Ledger late tickInterval now k pend [] tr)
    (hahead : ∀ p ∈ pend, now < p.tick) (hadd : .added n timeout h cbfunc data ∈ tr) :
    returns h tr = if expiry tickInterval n timeout ≤ now ∨ .deleted h 0 ∈ tr then 1 else 0 := by
  rw [← returns_history]
  rcases hl.cases hadd with ⟨hh, p, hp, -, htick⟩ | ⟨hle, hh⟩ | hh | ⟨-, hle, hh⟩
  · have hlt := hahead p hp
    have hdel : .deleted h 0 ∉ tr := by simp [← deleted_mem_history, hh]
    rw [hh, if_neg (by rintro (hle | hmem); exacts [by omega, hdel hmem])]
    simp [returns]
  · rw [hh, if_pos (Or.inl hle), returns_added, returns_firing]
    simp [returns]
  · have hdel : .deleted h 0 ∈ tr := by simp [← deleted_mem_history, hh]
    rw [hh, if_pos (Or.inr hdel)]
    simp [returns]
  · rw [hh, if_pos (Or.inl hle), returns_added, returns_firing]
    simp [returns]

/-- A timer is pending from when it is added until it is cancelled or freed. -/
lemma Ledger.pending_iff (hl : Ledger late tickInterval now k pend [] tr) :
    h ∈ pend.map PTimer.handle ↔ (∃ n timeout cbfunc data, .added n timeout h cbfunc data ∈ tr) ∧
      .deleted h 0 ∉ tr ∧ .freed h ∉ tr := by
  rw [← deleted_mem_history, ← freed_mem_history]
  constructor
  · intro hmem
    obtain ⟨p, hp, rfl⟩ := List.mem_map.mp hmem
    obtain ⟨n, timeout, -, hhist⟩ := hl.pending p hp
    rw [if_neg List.not_mem_nil] at hhist
    have hadd : .added n timeout p.handle p.cbfunc p.data ∈ history p.handle tr := by simp [hhist]
    exact ⟨⟨n, timeout, _, _, (mem_history.mp hadd).1⟩, by simp [hhist]⟩
  · rintro ⟨⟨n, timeout, cbfunc, data, hadd⟩, hdel, hfree⟩
    rcases hl.cases hadd with ⟨-, p, hp, rfl, -⟩ | ⟨-, hh⟩ | hh | ⟨-, -, hh⟩
    · exact List.mem_map_of_mem hp
    · simp [hh] at hfree
    · simp [hh] at hdel
    · simp [hh] at hdel

lemma Settled.added_of_fired {l : List TimerEvent} {m cb : ℕ}
    (hs : Settled late tickInterval now h l) (hfired : .fired m cb h data ∈ l) :
    ∃ n timeout, .added n timeout h (some cb) data ∈ l ∧ m = expiry tickInterval n timeout := by
  have hown : ∀ {n timeout : ℕ} {cbfunc data' : Option ℕ},
      .fired m cb h data ∈ firing (expiry tickInterval n timeout) cbfunc h data' →
      some cb = cbfunc ∧ data = data' ∧ m = expiry tickInterval n timeout := by
    intro n timeout cbfunc data' hmem
    obtain ⟨cb', rfl, heq⟩ := mem_firing.mp hmem
    obtain ⟨rfl, rfl, -, rfl⟩ := TimerEvent.fired.inj heq
    exact ⟨rfl, rfl, rfl⟩
  cases hs with
  | fired n timeout cbfunc data' _ =>
      obtain ⟨rfl, rfl, hm⟩ := hown (by simpa using hfired)
      exact ⟨n, timeout, List.mem_cons_self, hm⟩
  | cancelled n timeout cbfunc data' => simp at hfired
  | late n timeout cbfunc data' _ _ =>
      obtain ⟨rfl, rfl, hm⟩ := hown (by simpa using hfired)
      exact ⟨n, timeout, List.mem_cons_self, hm⟩

/-- What is invoked was added. -/
lemma Ledger.owned (hl : Ledger late tickInterval now k pend [] tr) : Owned tickInterval tr := by
  intro m cb h data hfired
  have hmem : .fired m cb h data ∈ history h tr := mem_history.mpr ⟨hfired, decide_eq_true rfl⟩
  rcases hl.history_cases h with hnil | ⟨p, -, -, n, timeout, -, hhist⟩ | hset
  · simp [hnil] at hmem
  · simp [hhist] at hmem
  · obtain ⟨n, timeout, hadd, hm⟩ := hset.added_of_fired hmem
    exact ⟨n, timeout, (mem_history.mp hadd).1, hm⟩

lemma Settled.after_deleted {l l₁ l₂ : List TimerEvent} (hs : Settled late tickInterval now h l)
    (hl : l = l₁ ++ .deleted h 0 :: l₂) : l₂ = [] := by
  -- a history that is over has its only deletion at its end
  have hlast : ∃ init last, l = init ++ [last] ∧ .deleted h 0 ∉ init := by
    cases hs with
    | fired n timeout cbfunc data hle =>
        exact ⟨_, _, (List.cons_append ..).symm, by simp [firing]⟩
    | cancelled n timeout cbfunc data => exact ⟨[_], _, rfl, by simp⟩
    | late n timeout cbfunc data hlate hle =>
        exact ⟨_, _, (List.cons_append ..).symm, by simp [firing]⟩
  obtain ⟨init, last, hinit, hnot⟩ := hlast
  rcases List.eq_nil_or_concat l₂ with hnil | ⟨l₂', x, rfl⟩
  · exact hnil
  · rw [hl, List.concat_eq_append, ← List.cons_append, ← List.append_assoc] at hinit
    have heq := (List.append_inj' hinit rfl).1
    exact absurd (heq ▸ by simp) hnot

/-- After a `del_timer` that has returned 0 the callback is not invoked. -/
lemma Ledger.invocations_after_deleted (hl : Ledger late tickInterval now k pend [] tr)
    {tr₁ tr₂ : List TimerEvent} (htr : tr = tr₁ ++ .deleted h 0 :: tr₂) :
    invocations h tr₂ = [] := by
  have hhist : history h tr = history h tr₁ ++ .deleted h 0 :: history h tr₂ := by
    rw [htr, history_append, history, history, history, List.filter_cons_of_pos (by simp [names])]
  have hmem : .deleted h 0 ∈ history h tr := by simp [hhist]
  rcases hl.history_cases h with hnil | ⟨p, -, -, n, timeout, -, hadded⟩ | hset
  · simp [hnil] at hmem
  · simp [hadded] at hmem
  · rw [← invocations_history, hset.after_deleted hhist]
    rfl

end Traces

end EvTimer

end Axon
