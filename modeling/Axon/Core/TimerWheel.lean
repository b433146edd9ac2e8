import Axon.Core.Timer
import Axon.Core.HashmapDictionary
import Axon.Library.Buckets

/-!
# The bookkeeping of `EvTimer`

The pending timers are kept three times: in the buckets of the wheels, in the hash table by handle,
and as nodes out of the pool.

* **`PTimer`** : a pending timer, with the address of its entry.
* **`EvTimer.place`** : the bucket of a tick, seen from a position of the wheels; `which_slot`
  computes it.
* **`EvTimer.Books`** : the entries, the hash table and the pool agree on the pending timers.
* **`EvTimer.Filed`** : and so do the buckets, each timer being in the bucket of its tick.
* **`EvTimer.Filed.add_stored`**, **`EvTimer.Filed.del`** : `add_timer` and `del_timer` keep this,
  wherever the wheels stand.
-/

namespace Axon

open Library

/-- A pending timer. -/
structure PTimer where
  addr : ℕ
  handle : ℤ
  cbfunc : Option ℕ
  tick : ℕ
  data : Option ℕ
deriving DecidableEq

namespace EvTimer

/-! ## Buckets -/

/-- **The bucket of a tick**: the highest wheel whose digit is ahead of the position, or the first
wheel. -/
def place (slotNow : ℕ → ℕ) (tick : ℕ) : ℕ × ℕ :=
  if slotNow 2 < digit tick 2 then (2, digit tick 2)
  else if slotNow 1 < digit tick 1 then (1, digit tick 1)
  else (0, digit tick 0)

lemma digit_lt (tick i : ℕ) : digit tick i < slotPerWheel := Nat.mod_lt _ (by decide)

lemma place_slot_lt (slotNow : ℕ → ℕ) (tick : ℕ) : (place slotNow tick).2 < slotPerWheel := by
  rw [place]
  split_ifs <;> exact digit_lt _ _

lemma place_slot_le (slotNow : ℕ → ℕ) (tick : ℕ) : (place slotNow tick).2 ≤ slotPerWheel :=
  Nat.le_of_lt (place_slot_lt slotNow tick)

lemma whichSlot_eq {t : EvTimer} {tick : ℕ} (h : tick < 2 ^ 30) :
    t.whichSlot tick = .ok (place t.slotNow tick) := by
  have hlimit : tick / slotPerWheel ^ totalWheel < 1 := by
    rw [slotPerWheel, totalWheel]
    omega
  rw [whichSlot, rtAssert_of_pos hlimit, ok_bind, place]
  have hrange : (List.range totalWheel).reverse = [2, 1, 0] := rfl
  simp only [hrange, List.find?_cons]
  by_cases h2 : t.slotNow 2 < digit tick 2
  · simp [h2]
    rfl
  · by_cases h1 : t.slotNow 1 < digit tick 1
    · simp [h2, h1]
      rfl
    · by_cases h0 : t.slotNow 0 < digit tick 0
      · simp [h2, h1, h0]
        rfl
      · simp [h2, h1, h0]
        rfl

lemma wheelAt_eq {t : EvTimer} {i : ℕ × ℕ} (h : i.2 ≤ slotPerWheel) :
    t.wheelAt i.1 i.2 = .ok (t.wheel i) := if_pos h

lemma setWheel_eq {t : EvTimer} {i : ℕ × ℕ} (h : i.2 ≤ slotPerWheel) (p : Option ℕ) :
    t.setWheel i.1 i.2 p = .ok { t with wheel := Function.update t.wheel i p } := if_pos h

/-! ## Entries, hash table and pool -/

/-- The fields of an entry apart from its link. -/
def entryTimer (e : TimerEntry) : ℤ × Option ℕ × ℕ × Option ℕ :=
  (e.handle, e.cbfunc, e.tick, e.data)

/-- The timers in the entries. -/
def timers (h : Heap TimerEntry) : ℕ → Option (ℤ × Option ℕ × ℕ × Option ℕ) :=
  h.field fun e => some (entryTimer e)

/-- The links of the buckets. -/
def nexts (h : Heap TimerEntry) : ℕ → Option ℕ := h.field TimerEntry.next

lemma timers_eq {h : Heap TimerEntry} {p : PTimer}
    (hp : timers h p.addr = some (p.handle, p.cbfunc, p.tick, p.data)) :
    ∃ nx, h.cell p.addr = some ⟨p.handle, p.cbfunc, p.tick, p.data, nx⟩ ∧
      nexts h p.addr = nx := by
  cases hc : h.cell p.addr with
  | none => simp [timers, Heap.field, hc] at hp
  | some e =>
      simp only [timers, Heap.field, hc, Option.bind_some, entryTimer, Option.some.injEq,
        Prod.mk.injEq] at hp
      obtain ⟨h1, h2, h3, h4⟩ := hp
      refine ⟨e.next, ?_, by simp [nexts, Heap.field, hc]⟩
      rw [← h1, ← h2, ← h3, ← h4]

lemma timers_congr {h h' : Heap TimerEntry} {x : ℕ} (hcell : h'.cell x = h.cell x) :
    timers h' x = timers h x := by
  rw [timers, timers, Heap.field, Heap.field, hcell]

lemma nexts_congr {h h' : Heap TimerEntry} {x : ℕ} (hcell : h'.cell x = h.cell x) :
    nexts h' x = nexts h x := by
  rw [nexts, nexts, Heap.field, Heap.field, hcell]

/-- The links after one entry has been filled in. -/
lemma nexts_eq_update {h h' : Heap TimerEntry} {a : ℕ} {e : TimerEntry}
    (hself : h'.cell a = some e) (hcell : ∀ x, x ≠ a → h'.cell x = h.cell x) :
    nexts h' = Function.update (nexts h) a e.next := by
  funext x
  rcases eq_or_ne x a with rfl | hne
  · simp [nexts, Heap.field, hself]
  · rw [Function.update_of_ne hne, nexts_congr (hcell x hne)]

/-- **The books agree**: the entries of the pending timers hold them, the hash table maps exactly
their handles to their entries, and their entries are what the pool has handed out. -/
structure Books (t : EvTimer) (pend : List PTimer) : Prop where
  info : ∀ p ∈ pend, timers t.entries p.addr = some (p.handle, p.cbfunc, p.tick, p.data)
  handle_nodup : (pend.map PTimer.handle).Nodup
  map : ∃ l b, HmapT.Stores t.entryMap l b ∧
    l.map (fun c => (c.key, c.data)) = pend.map fun p => (p.handle, some p.addr)
  pool : ∃ fl, t.entryPool.Owns t.entries kEntryPoolSize (pend.map PTimer.addr) fl

section Books

variable {t : EvTimer} {pend : List PTimer} {p : PTimer}

lemma Books.addr_nodup (hb : Books t pend) : (pend.map PTimer.addr).Nodup := by
  obtain ⟨fl, ho⟩ := hb.pool
  exact ho.out_nodup

lemma Books.live (hb : Books t pend) (hp : p ∈ pend) : t.entries.Live p.addr := by
  obtain ⟨fl, ho⟩ := hb.pool
  exact ho.out_live _ (List.mem_map_of_mem hp)

lemma Books.entry (hb : Books t pend) (hp : p ∈ pend) :
    ∃ nx, t.entries.cell p.addr = some ⟨p.handle, p.cbfunc, p.tick, p.data, nx⟩ ∧
      nexts t.entries p.addr = nx :=
  timers_eq (hb.info p hp)

lemma Books.eq_of_addr (hb : Books t pend) {q : PTimer} (hp : p ∈ pend) (hq : q ∈ pend)
    (h : p.addr = q.addr) : p = q :=
  List.inj_on_of_nodup_map hb.addr_nodup hp hq h

lemma Books.eq_of_handle (hb : Books t pend) {q : PTimer} (hp : p ∈ pend) (hq : q ∈ pend)
    (h : p.handle = q.handle) : p = q :=
  List.inj_on_of_nodup_map hb.handle_nodup hp hq h

/-- Without the timer of a handle the addresses are those without its address. -/
lemma Books.map_filter_addr (hb : Books t pend) (hp : p ∈ pend) :
    (pend.filter fun q => q.handle ≠ p.handle).map PTimer.addr =
      (pend.map PTimer.addr).erase p.addr := by
  rw [hb.addr_nodup.erase_eq_filter, List.filter_map]
  congr 1
  refine List.filter_congr fun q hq => ?_
  rw [Bool.eq_iff_iff]
  simp only [ne_eq, decide_eq_true_eq, Function.comp_apply, bne_iff_ne]
  exact not_congr ⟨fun h => by rw [hb.eq_of_handle hq hp h], fun h => by rw [hb.eq_of_addr hq hp h]⟩

/-- Writes to the links of pending entries do not touch the books. -/
lemma Books.setNext (hb : Books t pend) (hp : p ∈ pend) (v : Option ℕ) :
    Books { t with entries := t.entries.write p.addr fun e => { e with next := v } } pend := by
  obtain ⟨fl, ho⟩ := hb.pool
  have htimers : timers (t.entries.write p.addr fun e => { e with next := v }) =
      timers t.entries := by
    apply Heap.field_write_same
    exact fun _ => rfl
  refine ⟨fun q hq => ?_, hb.handle_nodup, hb.map, fl, ho.congr (fun b => by simp) fun b hnot => ?_⟩
  · rw [htimers]
    exact hb.info q hq
  · exact Function.update_of_ne (fun he : b = p.addr => hnot (he ▸ List.mem_map_of_mem hp)) ..

/-- The keys of the hash table are the handles. -/
lemma keys_eq {l : List (Cell ℤ ℕ)}
    (hl : l.map (fun c => (c.key, c.data)) = pend.map fun p => (p.handle, some p.addr)) :
    l.map Cell.key = pend.map PTimer.handle := by
  have := congrArg (List.map Prod.fst) hl
  simpa [Function.comp_def] using this

/-- The hash table finds what a search among the pending timers finds. -/
lemma find_eq {l : List (Cell ℤ ℕ)} (handle : ℤ)
    (hl : l.map (fun c => (c.key, c.data)) = pend.map fun p => (p.handle, some p.addr)) :
    (l.find? fun c => c.key = handle).bind Cell.data =
      (pend.find? fun p => p.handle = handle).map PTimer.addr := by
  have hfind := congrArg
    (fun l => (l.find? fun x : ℤ × Option ℕ => decide (x.1 = handle)).bind Prod.snd) hl
  simp only [List.find?_map, Option.bind_map] at hfind
  calc (l.find? fun c => c.key = handle).bind Cell.data
      = (pend.find? fun p => p.handle = handle).bind fun p => some p.addr := hfind
    _ = (pend.find? fun p => p.handle = handle).map PTimer.addr := by
        cases pend.find? fun p => p.handle = handle <;> rfl

lemma Books.find_handle (hb : Books t pend) (hp : p ∈ pend) :
    (pend.find? fun q => q.handle = p.handle) = some p := by
  cases hf : pend.find? fun q => q.handle = p.handle with
  | none => exact absurd (decide_eq_true rfl) (List.find?_eq_none.mp hf p hp)
  | some q =>
      have hq : q.handle = p.handle := by simpa using List.find?_some hf
      rw [hb.eq_of_handle (List.mem_of_find?_eq_some hf) hp hq]

/-- **The hash table maps exactly the pending handles**, to their entries. -/
lemma Books.getData (hb : Books t pend) (handle : ℤ) :
    t.entryMap.getData handle =
      .ok ((pend.find? fun p => p.handle = handle).map PTimer.addr) := by
  obtain ⟨l, b, hs, hl⟩ := hb.map
  rw [hs.getData_eq (keys_eq hl ▸ hb.handle_nodup), find_eq handle hl]

/-- A handle that is not pending is not in the hash table. -/
lemma Books.removeGet_none (hb : Books t pend) {handle : ℤ}
    (h : handle ∉ pend.map PTimer.handle) :
    t.entryMap.removeGet handle = .ok (t.entryMap, none) := by
  obtain ⟨l, b, hs, hl⟩ := hb.map
  exact hs.removeGet_none (keys_eq hl ▸ hb.handle_nodup) (keys_eq hl ▸ h)

/-- The hash table finds a pending timer by its handle, and is rid of it. -/
lemma Books.removeGet (hb : Books t pend) (hp : p ∈ pend) :
    ∃ m, t.entryMap.removeGet p.handle = .ok (m, some p.addr) ∧
      ∃ l b, HmapT.Stores m l b ∧ l.map (fun c => (c.key, c.data)) =
        (pend.filter fun q => q.handle ≠ p.handle).map fun p => (p.handle, some p.addr) := by
  obtain ⟨l, b, hs, hl⟩ := hb.map
  have hkeys : (l.map Cell.key).Nodup := keys_eq hl ▸ hb.handle_nodup
  obtain ⟨m, b', hrem, -, hs'⟩ := hs.removeGet hkeys p.handle
  rw [find_eq p.handle hl, hb.find_handle hp, Option.map_some] at hrem
  refine ⟨m, hrem, _, b', hs', ?_⟩
  have hfilter := congrArg (List.filter fun x : ℤ × Option ℕ => decide (x.1 ≠ p.handle)) hl
  rw [List.filter_map, List.filter_map] at hfilter
  exact hfilter

/-- **A pending timer is given up**: its handle leaves the hash table and its entry goes back to the
pool. -/
lemma Books.release (hb : Books t pend) (hp : p ∈ pend) {m : HmapT ℤ ℕ}
    (hm : ∃ l b, HmapT.Stores m l b ∧ l.map (fun c => (c.key, c.data)) =
      (pend.filter fun q => q.handle ≠ p.handle).map fun p => (p.handle, some p.addr)) :
    ∃ pool entries, t.entryPool.free t.entries p.addr = .ok (pool, entries) ∧
      (∀ a, a ≠ p.addr → entries.cell a = t.entries.cell a) ∧
      pool.buf = t.entryPool.buf ∧ pool.bufEnd = t.entryPool.bufEnd ∧
      Books { t with entryMap := m, entryPool := pool, entries := entries }
        (pend.filter fun q => q.handle ≠ p.handle) := by
  obtain ⟨fl, ho⟩ := hb.pool
  obtain ⟨pool, entries, fl', hfree, ho', hbuf, hend, hcell⟩ := ho.free (List.mem_map_of_mem hp)
  refine ⟨pool, entries, hfree, hcell, hbuf, hend, ?_, ?_, hm, fl', ?_⟩
  · intro q hq
    obtain ⟨hq, hne⟩ := List.mem_filter.mp hq
    have hne' : q.addr ≠ p.addr := fun he =>
      of_decide_eq_true hne (congrArg PTimer.handle (hb.eq_of_addr hq hp he))
    exact (timers_congr (hcell _ hne')).trans (hb.info q hq)
  · exact hb.handle_nodup.sublist (List.filter_sublist.map _)
  · rw [hb.map_filter_addr hp]
    exact ho'

end Books

/-! ## The buckets -/

/-- **The pending timers are filed**: the books agree, and each timer is once in the bucket of its
tick, seen from where the wheels stand. -/
structure Filed (t : EvTimer) (B : ℕ × ℕ → List ℕ) (pend : List PTimer) : Prop where
  books : Books t pend
  chains : Chains (nexts t.entries) t.wheel B
  mem : ∀ i a, a ∈ B i ↔ ∃ p ∈ pend, p.addr = a ∧ place t.slotNow p.tick = i
  limit : ∀ p ∈ pend, p.tick < 2 ^ 30

/-- What calls on the timer leave alone. -/
structure SameTime (t t' : EvTimer) : Prop where
  ticknow : t'.ticknow = t.ticknow
  tickInterval : t'.tickInterval = t.tickInterval
  slotNow : t'.slotNow = t.slotNow
  buf : t'.entryPool.buf = t.entryPool.buf
  bufEnd : t'.entryPool.bufEnd = t.entryPool.bufEnd

lemma SameTime.refl (t : EvTimer) : SameTime t t := ⟨rfl, rfl, rfl, rfl, rfl⟩

lemma SameTime.trans {t₁ t₂ t₃ : EvTimer} (h : SameTime t₁ t₂) (h' : SameTime t₂ t₃) :
    SameTime t₁ t₃ :=
  ⟨h'.ticknow.trans h.ticknow, h'.tickInterval.trans h.tickInterval, h'.slotNow.trans h.slotNow,
    h'.buf.trans h.buf, h'.bufEnd.trans h.bufEnd⟩

/-- The tick a timer expires at, added at `now`. -/
def expiry (tickInterval now timeout : ℕ) : ℕ := now + max 1 (timeout / tickInterval)

/-- The memory `add_timer` gets: blocks of `malloc` are not in the pool, nor directly behind it. -/
def Outside (mem : TimerMem) (t : EvTimer) : Prop :=
  ∀ h, mem.malloc.new h < t.entryPool.buf ∨ t.entryPool.bufEnd < mem.malloc.new h

section Filed

variable {t : EvTimer} {B : ℕ × ℕ → List ℕ} {pend : List PTimer} {p : PTimer}

/-- The tick `add_timer` stores, a `uint32_t`. -/
def storedTick (t : EvTimer) (timeout : ℕ) : ℕ :=
  if t.tickInterval < timeout then u32 (t.ticknow + timeout / t.tickInterval)
  else u32 (t.ticknow + 1)

/-- It is the expiry tick, as long as that fits. -/
lemma storedTick_eq (hI : 0 < t.tickInterval) {timeout : ℕ}
    (hfit : expiry t.tickInterval t.ticknow timeout < 2 ^ 32) :
    t.storedTick timeout = expiry t.tickInterval t.ticknow timeout := by
  rw [expiry] at hfit
  rw [storedTick, expiry]
  by_cases hlt : t.tickInterval < timeout
  · have hdiv : 1 ≤ timeout / t.tickInterval := (Nat.one_le_div_iff hI).mpr (Nat.le_of_lt hlt)
    rw [max_eq_right hdiv] at hfit ⊢
    rw [if_pos hlt, u32_of_lt hfit]
  · have hdiv : timeout / t.tickInterval ≤ 1 := by
      calc timeout / t.tickInterval ≤ t.tickInterval / t.tickInterval :=
            Nat.div_le_div_right (not_lt.mp hlt)
        _ = 1 := Nat.div_self hI
    rw [max_eq_left hdiv] at hfit ⊢
    rw [if_neg hlt, u32_of_lt hfit]

/-- **`add_timer`** returns the next handle and files the new timer in front of the bucket of the
tick it has stored, below the upper limit. -/
lemma Filed.add_stored (hf : Filed t B pend) (hI : 0 < t.tickInterval) {mem : TimerMem}
    (hmem : Outside mem t) (cbfunc data : Option ℕ) {timeout T : ℕ}
    (hT : t.storedTick timeout = T) (hlim : T < 2 ^ 30) :
    ∃ t' a, t.addTimer mem cbfunc data timeout = .ok (t', nextHandle t.handle) ∧
      SameTime t t' ∧ t'.handle = nextHandle t.handle ∧ a ∉ pend.map PTimer.addr ∧
      (nextHandle t.handle ∉ pend.map PTimer.handle →
        Filed t' (Function.update B (place t.slotNow T) (a :: B (place t.slotNow T)))
          (⟨a, nextHandle t.handle, cbfunc, T, data⟩ :: pend)) := by
  set i := place t.slotNow T with hi
  obtain ⟨fl, ho⟩ := hf.books.pool
  obtain ⟨pool, h₁, a, fl', halloc, ha, ho', hbuf, hend, hcell₁⟩ := ho.alloc mem.junk hmem
  obtain ⟨l, b, hs, hl⟩ := hf.books.map
  obtain ⟨m, b', hins, -, hs'⟩ := hs.insert (mem.mapEntry.fresh t.entryMap.entries)
    (nextHandle t.handle) (some a)
  have hlive : h₁.Live a := ho'.out_live a List.mem_cons_self
  obtain ⟨e₁, he₁⟩ := Heap.live_iff.mp hlive
  set h₂ := (h₁.write a fun e =>
    { e with cbfunc := cbfunc, data := data, handle := nextHandle t.handle, tick := T }).write a
    fun e => { e with next := t.wheel i } with hh₂
  have hcell : ∀ x, x ≠ a → h₂.cell x = t.entries.cell x := fun x hx => by
    simp only [hh₂, Heap.write, Function.update_of_ne hx]
    exact hcell₁ x hx
  have hself : h₂.cell a = some ⟨nextHandle t.handle, cbfunc, T, data, t.wheel i⟩ := by
    simp [hh₂, Heap.write, he₁]
  have hrun : t.addTimer mem cbfunc data timeout = .ok ({ t with
      entryPool := pool
      entries := h₂
      handle := nextHandle t.handle
      entryMap := m
      wheel := Function.update t.wheel i (some a) }, nextHandle t.handle) := by
    rw [storedTick] at hT
    rw [addTimer, halloc, ok_bind]
    dsimp only
    rw [if_neg (by omega), hT, assign_eq hlive, ok_bind, hins, ok_bind, whichSlot_eq hlim, ok_bind]
    dsimp only
    rw [wheelAt_eq (place_slot_le _ _), ok_bind, assign_eq (by simpa using hlive), ok_bind,
      setWheel_eq (place_slot_le _ _)]
    rfl
  have hnot : ∀ j, a ∉ B j := fun j hmem' => by
    obtain ⟨q, hq, rfl, -⟩ := (hf.mem j a).mp hmem'
    exact ha (List.mem_map_of_mem hq)
  refine ⟨_, a, hrun, ⟨rfl, rfl, rfl, hbuf, hend⟩, rfl, ha, fun hfresh =>
    ⟨⟨?_, ?_, ⟨_, b', hs', ?_⟩, fl', ?_⟩, ?_, ?_, ?_⟩⟩
  · intro q hq
    rcases List.mem_cons.mp hq with rfl | hq
    · simp [timers, Heap.field, hself, entryTimer]
    · have hne : q.addr ≠ a := fun he => ha (he ▸ List.mem_map_of_mem hq)
      exact (timers_congr (hcell _ hne)).trans (hf.books.info q hq)
  · exact List.nodup_cons.mpr ⟨hfresh, hf.books.handle_nodup⟩
  · rw [List.map_cons, List.map_cons, hl]
  · refine ho'.congr (fun x => by simp [hh₂]) fun x hx => ?_
    have hne : x ≠ a := fun he => hx (he ▸ List.mem_cons_self)
    rw [hcell x hne, hcell₁ x hne]
  · show Chains (nexts h₂) _ _
    rw [nexts_eq_update hself hcell]
    exact hf.chains.push hnot i
  · intro j x
    rw [mem_update_cons, hf.mem]
    simp only [List.mem_cons, exists_eq_or_imp]
    exact or_congr (and_congr_left' eq_comm) Iff.rfl
  · intro q hq
    rcases List.mem_cons.mp hq with rfl | hq
    · exact hlim
    · exact hf.limit q hq

/-- A timer beyond the upper limit fails the check of `which_slot`. -/
lemma Filed.add_beyond (hf : Filed t B pend) (hI : 0 < t.tickInterval) {mem : TimerMem}
    (hmem : Outside mem t) (cbfunc data : Option ℕ) {timeout : ℕ}
    (hlim : 2 ^ 30 ≤ t.storedTick timeout) :
    t.addTimer mem cbfunc data timeout = .error (.rtAssert "tick < 1") := by
  obtain ⟨fl, ho⟩ := hf.books.pool
  obtain ⟨pool, h₁, a, fl', halloc, -, ho', -⟩ := ho.alloc mem.junk hmem
  obtain ⟨l, b, hs, -⟩ := hf.books.map
  obtain ⟨m, b', hins, -⟩ := hs.insert (mem.mapEntry.fresh t.entryMap.entries)
    (nextHandle t.handle) (some a)
  have hlive : h₁.Live a := ho'.out_live a List.mem_cons_self
  have hbeyond : ¬ t.storedTick timeout / slotPerWheel ^ totalWheel < 1 := by
    rw [slotPerWheel, totalWheel]
    omega
  rw [storedTick] at hbeyond
  rw [addTimer, halloc, ok_bind]
  dsimp only
  rw [if_neg (by omega), assign_eq hlive, ok_bind, hins, ok_bind, whichSlot, rtAssert,
    if_neg hbeyond]
  rfl

/-- The loop of `del_timer` stops at the entry with the handle, behind the last one without. -/
lemma delFrom_eq {handle : ℤ} {a pw fuel : ℕ} {mid l : List ℕ} {e : TimerEntry}
    (hchain : Chain (nexts t.entries) (nexts t.entries pw) (mid ++ a :: l))
    (hmid : ∀ x ∈ mid, ∃ e, t.entries.cell x = some e ∧ e.handle ≠ handle)
    (ha : t.entries.cell a = some e) (hhandle : e.handle = handle) (hfuel : mid.length < fuel)
    (hlive : t.entries.Live (mid.getLast?.getD pw)) :
    t.delFrom handle a fuel pw (nexts t.entries pw) = (do
      let (pool, entries) ← t.entryPool.free
        (t.entries.write (mid.getLast?.getD pw) fun w => { w with next := e.next }) a
      pure ({ t with entries := entries, entryPool := pool }, 0)) := by
  induction mid generalizing pw fuel with
  | nil =>
      obtain ⟨fuel, rfl⟩ := Nat.exists_eq_succ_of_ne_zero (Nat.ne_of_gt hfuel)
      obtain ⟨hnext, -⟩ := hchain
      have hpw : t.entries.Live pw := hlive
      rw [hnext, delFrom, deref_eq ha, ok_bind, if_pos hhandle, rtAssert_of_pos rfl, ok_bind,
        assign_eq hpw, ok_bind]
      rfl
  | cons x mid ih =>
      obtain ⟨fuel, rfl⟩ := Nat.exists_eq_succ_of_ne_zero (Nat.ne_of_gt (Nat.zero_lt_of_lt hfuel))
      obtain ⟨hnext, hrest⟩ := hchain
      obtain ⟨ex, hex, hne⟩ := hmid x List.mem_cons_self
      have hx : nexts t.entries x = ex.next := by simp [nexts, Heap.field, hex]
      have hlast : ((x :: mid).getLast?).getD pw = mid.getLast?.getD x := by
        rw [List.getLast?_cons]
        rfl
      rw [hlast] at hlive ⊢
      rw [hnext, delFrom, deref_eq hex, ok_bind, if_neg hne, ← hx]
      exact ih hrest (fun y hy => hmid y (List.mem_cons_of_mem x hy)) (Nat.lt_of_succ_lt_succ hfuel)
        hlive

/-- Taking a node out of its bucket. -/
lemma erase_update (hf : Filed t B pend) {i : ℕ × ℕ} {a : ℕ} (ha : a ∈ B i) :
    (fun j => (B j).erase a) = Function.update B i ((B i).erase a) := by
  funext j
  rcases eq_or_ne j i with rfl | hne
  · rw [Function.update_self]
  · rw [Function.update_of_ne hne]
    exact List.erase_of_not_mem fun hmem => hne (hf.chains.disjoint j i a hmem ha)

lemma Filed.addr_mem (hf : Filed t B pend) (hp : p ∈ pend) :
    p.addr ∈ B (place t.slotNow p.tick) := (hf.mem _ _).mpr ⟨p, hp, rfl, rfl⟩

/-- The entry of a timer is out of its bucket: what is left of `del_timer` is to give it back to the
pool. -/
structure Unlinked (t : EvTimer) (B : ℕ × ℕ → List ℕ) (pend : List PTimer) (p : PTimer)
    (m : HmapT ℤ ℕ) (t₁ : EvTimer) : Prop where
  books : Books t₁ pend
  same : SameTime t t₁
  handle : t₁.handle = t.handle
  chains : Chains (nexts t₁.entries) t₁.wheel fun j => (B j).erase p.addr
  run : t.delTimer p.handle = (do
    let (pool, entries) ← t₁.entryPool.free t₁.entries p.addr
    pure ({ t₁ with entryMap := m, entries := entries, entryPool := pool }, 0))

/-- `del_timer` finds the bucket of a pending timer. -/
lemma Filed.delTimer_eq (hf : Filed t B pend) (hp : p ∈ pend) {m : HmapT ℤ ℕ}
    (hrem : t.entryMap.removeGet p.handle = .ok (m, some p.addr)) {pw : ℕ} {w : TimerEntry}
    (hwheel : t.wheel (place t.slotNow p.tick) = some pw) (hw : t.entries.cell pw = some w) :
    t.delTimer p.handle =
      if w.handle = p.handle then do
        rtAssert "pw == pe" (pw = p.addr)
        let t ← { t with entryMap := m }.setWheel (place t.slotNow p.tick).1
          (place t.slotNow p.tick).2 w.next
        let (pool, entries) ← t.entryPool.free t.entries p.addr
        pure ({ t with entries := entries, entryPool := pool }, 0)
      else { t with entryMap := m }.delFrom p.handle p.addr t.entries.bound pw w.next := by
  obtain ⟨nx, hcell, -⟩ := hf.books.entry hp
  rw [delTimer, hrem, ok_bind]
  dsimp only
  rw [deref_eq hcell, ok_bind, whichSlot_eq (hf.limit p hp), ok_bind]
  dsimp only
  rw [wheelAt_eq (place_slot_le _ _), ok_bind, hwheel]
  dsimp only
  rw [deref_eq hw, ok_bind]

/-- The timer is the first one of its bucket. -/
lemma Filed.unlink_head (hf : Filed t B pend) (hp : p ∈ pend) {m : HmapT ℤ ℕ}
    (hrem : t.entryMap.removeGet p.handle = .ok (m, some p.addr)) {l : List ℕ}
    (hB : B (place t.slotNow p.tick) = p.addr :: l) : ∃ t₁, Unlinked t B pend p m t₁ := by
  set i := place t.slotNow p.tick with hi
  obtain ⟨nx, hcell, hnx⟩ := hf.books.entry hp
  have hchain := hf.chains.chain i
  rw [hB] at hchain
  have hhead : t.wheel i = some p.addr := hchain.1
  refine ⟨{ t with wheel := Function.update t.wheel i nx }, ?_, ⟨rfl, rfl, rfl, rfl, rfl⟩, rfl,
    ?_, ?_⟩
  · exact ⟨hf.books.info, hf.books.handle_nodup, hf.books.map, hf.books.pool⟩
  · have hremove := hf.chains.removeHead hB
    rw [hnx] at hremove
    have herase : (B i).erase p.addr = l := by rw [hB, List.erase_cons_head]
    rw [erase_update hf (hf.addr_mem hp), ← hi, herase]
    exact hremove
  · rw [hf.delTimer_eq hp hrem hhead hcell, if_pos rfl, rtAssert_of_pos rfl, ok_bind,
      setWheel_eq (place_slot_le _ _), ok_bind]

/-- The timer is behind another one in its bucket. -/
lemma Filed.unlink_after (hf : Filed t B pend) (hp : p ∈ pend) {m : HmapT ℤ ℕ}
    (hrem : t.entryMap.removeGet p.handle = .ok (m, some p.addr)) {l₁ l₂ : List ℕ} {c : ℕ}
    (hB : B (place t.slotNow p.tick) = l₁ ++ c :: p.addr :: l₂) :
    ∃ t₁, Unlinked t B pend p m t₁ := by
  set i := place t.slotNow p.tick with hi
  obtain ⟨nx, hcell, hnx⟩ := hf.books.entry hp
  obtain ⟨q, hq, hqc, -⟩ := (hf.mem i c).mp (by simp [hB])
  have hlive : t.entries.Live c := hqc ▸ hf.books.live hq
  have hchain := hf.chains.chain i
  have hnodup := hchain.nodup
  -- the entries in front of the timer, from the first one `x` on
  obtain ⟨x, mid, hxm⟩ : ∃ x mid, l₁ ++ [c] = x :: mid := List.exists_cons_of_ne_nil (by simp)
  have hlast : mid.getLast?.getD x = c := by
    have hl := congrArg List.getLast? hxm
    rw [List.getLast?_concat, List.getLast?_cons] at hl
    exact (Option.some.inj hl).symm
  have hBx : B i = (x :: mid) ++ p.addr :: l₂ := by rw [hB, List.append_cons, hxm]
  rw [hBx] at hchain hnodup
  have hne : ∀ y ∈ x :: mid, y ≠ p.addr := fun y hy hya =>
    (List.nodup_append.mp hnodup).2.2 y hy p.addr List.mem_cons_self hya
  have hother : ∀ y ∈ x :: mid, ∃ e, t.entries.cell y = some e ∧ e.handle ≠ p.handle := by
    intro y hy
    obtain ⟨r, hr, rfl, -⟩ := (hf.mem i y).mp (hBx ▸ List.mem_append_left _ hy)
    obtain ⟨nr, hcr, -⟩ := hf.books.entry hr
    exact ⟨_, hcr, fun hh => hne _ hy (by rw [hf.books.eq_of_handle hr hp hh])⟩
  refine ⟨{ t with entries := t.entries.write c fun w => { w with next := nx } }, ?_,
    ⟨rfl, rfl, rfl, rfl, rfl⟩, rfl, ?_, ?_⟩
  · rw [← hqc]
    exact hf.books.setNext hq nx
  · have hnexts : nexts (t.entries.write c fun w => { w with next := nx }) =
        Function.update (nexts t.entries) c (nexts t.entries p.addr) := by
      rw [hnx]
      exact Heap.field_write_eq (fun _ => rfl) hlive
    have herase : (B i).erase p.addr = l₁ ++ c :: l₂ := by
      rw [hBx, List.erase_append_right _ fun hmem => hne _ hmem rfl, List.erase_cons_head, ← hxm,
        ← List.append_cons]
    rw [erase_update hf (hf.addr_mem hp), ← hi, herase]
    show Chains (nexts (t.entries.write c fun w => { w with next := nx })) _ _
    rw [hnexts]
    exact hf.chains.removeAfter hB
  · obtain ⟨w, hw, hwne⟩ := hother x List.mem_cons_self
    have hwnext : nexts t.entries x = w.next := by simp [nexts, Heap.field, hw]
    have hlen : mid.length < t.entries.bound := by
      have hle := Heap.length_le_bound (h := t.entries) hnodup fun y hy => by
        obtain ⟨r, hr, rfl, -⟩ := (hf.mem i y).mp (hBx ▸ hy)
        exact hf.books.live hr
      simp only [List.length_append, List.length_cons] at hle
      omega
    have hfrom := delFrom_eq (t := { t with entryMap := m }) (l := l₂) hchain.2
      (fun y hy => hother y (List.mem_cons_of_mem x hy)) hcell rfl hlen (hlast ▸ hlive)
    rw [hlast] at hfrom
    rw [hf.delTimer_eq hp hrem hchain.1 hw, if_neg hwne, ← hwnext]
    exact hfrom

/-- **`del_timer` of a pending handle** returns 0 and gives exactly that timer up. -/
lemma Filed.del (hf : Filed t B pend) (hp : p ∈ pend) :
    ∃ t', t.delTimer p.handle = .ok (t', 0) ∧ SameTime t t' ∧ t'.handle = t.handle ∧
      Filed t' (fun j => (B j).erase p.addr) (pend.filter fun q => q.handle ≠ p.handle) := by
  obtain ⟨m, hrem, hm⟩ := hf.books.removeGet hp
  obtain ⟨t₁, hb₁, hsame, hhandle, hch₁, hrun⟩ : ∃ t₁, Unlinked t B pend p m t₁ := by
    obtain ⟨l₁, l₂, hB⟩ := List.append_of_mem (hf.addr_mem hp)
    rcases List.eq_nil_or_concat l₁ with rfl | ⟨l₁, c, rfl⟩
    · exact hf.unlink_head hp hrem hB
    · rw [List.concat_append] at hB
      exact hf.unlink_after hp hrem hB
  obtain ⟨pool, entries, hfree, hcellne, hbuf, hend, hb'⟩ := hb₁.release hp hm
  rw [hfree, ok_bind] at hrun
  refine ⟨_, hrun, ⟨hsame.ticknow, hsame.tickInterval, hsame.slotNow, hbuf.trans hsame.buf,
    hend.trans hsame.bufEnd⟩, hhandle, hb', ?_, ?_, ?_⟩
  · refine hch₁.congr fun j x hx => ?_
    have hne : x ≠ p.addr := ((hf.chains.chain j).nodup.mem_erase_iff.mp hx).1
    exact nexts_congr (hcellne x hne)
  · intro j x
    rw [(hf.chains.chain j).nodup.mem_erase_iff, hf.mem]
    simp only [hsame.slotNow]
    constructor
    · rintro ⟨hne, q, hq, rfl, hplace⟩
      refine ⟨q, List.mem_filter.mpr ⟨hq, decide_eq_true fun hh => hne ?_⟩, rfl, hplace⟩
      rw [hf.books.eq_of_handle hq hp hh]
    · rintro ⟨q, hq, rfl, hplace⟩
      obtain ⟨hq, hne⟩ := List.mem_filter.mp hq
      refine ⟨fun haddr => of_decide_eq_true hne ?_, q, hq, rfl, hplace⟩
      rw [hf.books.eq_of_addr hq hp haddr]
  · exact fun q hq => hf.limit q (List.mem_filter.mp hq).1

/-- **`del_timer` of any other handle** returns -1 and changes nothing. -/
lemma Filed.del_none (hf : Filed t B pend) {handle : ℤ} (h : handle ∉ pend.map PTimer.handle) :
    t.delTimer handle = .ok (t, -1) := by
  rw [delTimer, hf.books.removeGet_none h]
  rfl

end Filed

end EvTimer

end Axon
