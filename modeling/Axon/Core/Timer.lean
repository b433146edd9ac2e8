import Axon.Core.Hashmap
import Axon.Core.MemPool

/-!
# The timer `EvTimer`

`ax_timer.cc`: a hierarchical timing wheel.  A timer that expires at tick `T` is in a bucket of one
of three wheels of 1024 slots, chosen by the highest base-1024 digit in which `T` exceeds the
current position; when a wheel comes round, the bucket of the next wheel that has become current is
distributed anew.

* **`TimerEntry`**, **`EvTimer`** : the fields.  The entries are nodes of a `MemPool`, found by
  handle through an `HmapT`.
* **`EvTimer.whichSlot`**, **`addTimer`**, **`delTimer`** : the member functions.
* **`EvTimer.processTick`** : one tick.  The callbacks it invokes may add and delete timers.

`process_tick` reads and writes the word of memory behind a wheel when the wheel comes round; this
word is kept with the wheel.  A callback is known by a number; `NULL` is `none`.
-/

namespace Axon

open Library

/-- `TimerEntry`. -/
structure TimerEntry where
  handle : ℤ
  cbfunc : Option ℕ
  tick : ℕ
  data : Option ℕ
  next : Option ℕ

instance : PoolElt TimerEntry where
  firstInt e := e.handle
  setFirstInt e z := { e with handle := z }
  firstInt_setFirstInt _ _ := rfl

/-- `SLOT_PER_WHEEL`, `TOTAL_WHEEL` and `kEntryPoolSize`. -/
def slotPerWheel : ℕ := 1024

@[inherit_doc slotPerWheel] def totalWheel : ℕ := 3

@[inherit_doc slotPerWheel] def kEntryPoolSize : ℕ := 10000

/-- The fields of `EvTimer` that its ticks use, with the entries its pointers lead to. -/
structure EvTimer where
  ticknow : ℕ
  tickInterval : ℕ
  handle : ℤ
  slotNow : ℕ → ℕ
  entryMap : HmapT ℤ ℕ
  entryPool : MemPool
  entries : Heap TimerEntry
  /-- The head pointers `wheel_[i][s]`, and at `s = 1024` the word behind the wheel. -/
  wheel : ℕ × ℕ → Option ℕ

/-- What one `add_timer` gets from the C library: the address of the new entry of the hash table,
and the block `malloc` returns when the pool is full. -/
structure TimerMem where
  mapEntry : Allocator (HmapEntry ℤ ℕ)
  malloc : Allocator TimerEntry
  junk : TimerEntry

/-- What a callback does with the timer. -/
inductive TimerCall where
  | add (mem : TimerMem) (cbfunc data : Option ℕ) (timeout : ℕ)
  | del (handle : ℤ)

/-- What can be observed of a timer. -/
inductive TimerEvent where
  /-- `add_timer(cbfunc, data, timeout)` at `ticknow_ = now` has returned `handle`. -/
  | added (now timeout : ℕ) (handle : ℤ) (cbfunc data : Option ℕ)
  /-- `del_timer(handle)` has returned `ret`. -/
  | deleted (handle ret : ℤ)
  /-- `process_tick` has invoked `cbfunc(handle, data)` at `ticknow_ = now`. -/
  | fired (now : ℕ) (cbfunc : ℕ) (handle : ℤ) (data : Option ℕ)
  /-- `process_tick` has returned the entry with this handle to the pool. -/
  | freed (handle : ℤ)
deriving DecidableEq

namespace EvTimer

/-- `EvTimer::EvTimer`, with `slot_now_` zero and `NULL` behind the wheels; `buf` is the address of
the pool. -/
def new (os : Libc) (buf : ℕ) (t : ℕ) : Except Fault EvTimer := do
  let entryMap ← HmapT.new os (kEntryPoolSize * 3)
  let (entryPool, entries) ← MemPool.new os buf ⟨0, none, 0, none, none⟩ kEntryPoolSize 40
  pure
    { ticknow := 0
      tickInterval := t
      handle := 0
      slotNow := fun _ => 0
      entryMap := entryMap
      entryPool := entryPool
      entries := entries
      wheel := fun _ => none }

/-- Reads `wheel_[w][s]`, or the word behind the wheel. -/
def wheelAt (t : EvTimer) (w s : ℕ) : Except Fault (Option ℕ) :=
  if s ≤ slotPerWheel then .ok (t.wheel (w, s)) else .error .badAccess

/-- Assigns to `wheel_[w][s]`, or to the word behind the wheel. -/
def setWheel (t : EvTimer) (w s : ℕ) (p : Option ℕ) : Except Fault EvTimer :=
  if s ≤ slotPerWheel then .ok { t with wheel := Function.update t.wheel (w, s) p }
  else .error .badAccess

/-- The base-1024 digit `i` of a tick, `slot[i]`. -/
def digit (tick i : ℕ) : ℕ := tick / slotPerWheel ^ i % slotPerWheel

/-- `EvTimer::which_slot`: the wheel, and the slot in it. -/
def whichSlot (t : EvTimer) (tick : ℕ) : Except Fault (ℕ × ℕ) := do
  rtAssert "tick < 1" (tick / slotPerWheel ^ totalWheel < 1)
  let wheel := ((List.range totalWheel).reverse.find? fun i => t.slotNow i < digit tick i).getD 0
  pure (wheel, digit tick wheel)

/-- `++handle_` on an `int`, and back to `1` when it is not positive. -/
def nextHandle (handle : ℤ) : ℤ :=
  if handle + 1 ≤ 0 ∨ 2 ^ 31 ≤ handle + 1 then 1 else handle + 1

/-- `EvTimer::add_timer`. -/
def addTimer (t : EvTimer) (mem : TimerMem) (cbfunc data : Option ℕ) (timeout : ℕ) :
    Except Fault (EvTimer × ℤ) := do
  let (pool, entries, pe) ← t.entryPool.alloc mem.malloc mem.junk t.entries
  let handle := nextHandle t.handle
  if t.tickInterval < timeout ∧ t.tickInterval = 0 then .error .divByZero
  else
    let tick :=
      if t.tickInterval < timeout then u32 (t.ticknow + timeout / t.tickInterval)
      else u32 (t.ticknow + 1)
    let entries ← assign entries pe fun e =>
      { e with cbfunc := cbfunc, data := data, handle := handle, tick := tick }
    let entryMap ← t.entryMap.insert (mem.mapEntry.new t.entryMap.entries) handle (some pe)
    let t := { t with
      entryPool := pool, entries := entries, handle := handle, entryMap := entryMap }
    let (wheel, slot) ← t.whichSlot tick
    let head ← t.wheelAt wheel slot
    let entries ← assign t.entries pe fun e => { e with next := head }
    let t ← { t with entries := entries }.setWheel wheel slot (some pe)
    pure (t, handle)

/-- The loop of `EvTimer::del_timer` along a bucket, behind the entry `pw`. -/
def delFrom (t : EvTimer) (handle : ℤ) (pe : ℕ) : ℕ → ℕ → Option ℕ →
    Except Fault (EvTimer × ℤ)
  | _, _, none => .ok (t, -1)
  | 0, _, some _ => .error .hang
  | fuel + 1, pw, some qw => do
      let e ← deref t.entries qw
      if e.handle = handle then do
        rtAssert "qw == pe" (qw = pe)
        let entries ← assign t.entries pw fun w => { w with next := e.next }
        let (pool, entries) ← t.entryPool.free entries pe
        pure ({ t with entries := entries, entryPool := pool }, 0)
      else delFrom t handle pe fuel qw e.next

/-- `EvTimer::del_timer`. -/
def delTimer (t : EvTimer) (handle : ℤ) : Except Fault (EvTimer × ℤ) := do
  let (entryMap, pe) ← t.entryMap.removeGet handle
  let t := { t with entryMap := entryMap }
  match pe with
  | none => .ok (t, -1)
  | some pe => do
      let e ← deref t.entries pe
      let (wheel, slot) ← t.whichSlot e.tick
      match ← t.wheelAt wheel slot with
      | none => .ok (t, -1)
      | some pw => do
          let w ← deref t.entries pw
          if w.handle = handle then do
            rtAssert "pw == pe" (pw = pe)
            let t ← t.setWheel wheel slot w.next
            let (pool, entries) ← t.entryPool.free t.entries pe
            pure ({ t with entries := entries, entryPool := pool }, 0)
          else t.delFrom handle pe t.entries.bound pw w.next

/-- One call on the timer, with what is observed. -/
def call (t : EvTimer) : TimerCall → Except Fault (EvTimer × List TimerEvent)
  | .add mem cbfunc data timeout => do
      let (t', handle) ← t.addTimer mem cbfunc data timeout
      pure (t', [.added t.ticknow timeout handle cbfunc data])
  | .del handle => do
      let (t, ret) ← t.delTimer handle
      pure (t, [.deleted handle ret])

/-- The calls of one callback. -/
def calls : EvTimer → List TimerCall → Except Fault (EvTimer × List TimerEvent)
  | t, [] => .ok (t, [])
  | t, c :: cs => do
      let (t, evs) ← t.call c
      let (t, evs') ← calls t cs
      pure (t, evs ++ evs')

/-- The loop of `process_tick` that moves the entries of a bucket from `p` on to where they belong
now. -/
def moveFrom : ℕ → EvTimer → Option ℕ → Except Fault EvTimer
  | _, t, none => .ok t
  | 0, _, some _ => .error .hang
  | fuel + 1, t, some p => do
      let e ← deref t.entries p
      let (targetWheel, tslot) ← t.whichSlot e.tick
      let head ← t.wheelAt targetWheel tslot
      let entries ← assign t.entries p fun e => { e with next := head }
      let t ← { t with entries := entries }.setWheel targetWheel tslot (some p)
      moveFrom fuel t e.next

/-- The body of the first loop of `process_tick`: wheel `i` may have come round. -/
def updateWheel (t : EvTimer) (i : ℕ) : Except Fault EvTimer :=
  if t.slotNow i < slotPerWheel then .ok t
  else do
    let slot := u32 (t.slotNow (i + 1) + 1)
    let t := { t with slotNow := Function.update (Function.update t.slotNow i 0) (i + 1) slot }
    let p ← t.wheelAt (i + 1) slot
    let t ← moveFrom t.entries.bound t p
    t.setWheel (i + 1) slot none

/-- The loop of `process_tick` that invokes the callbacks of a bucket from `p` on.  The `j`-th
callback of the tick makes the calls `env j`. -/
def runFrom (env : ℕ → List TimerCall) : ℕ → ℕ → EvTimer → Option ℕ →
    Except Fault (EvTimer × List TimerEvent)
  | _, _, t, none => .ok (t, [])
  | 0, _, _, some _ => .error .hang
  | fuel + 1, j, t, some p => do
      let e ← deref t.entries p
      match e.cbfunc with
      | none => runFrom env fuel j t e.next
      | some cb => do
          let (t', evs) ← t.calls (env j)
          let (t', evs') ← runFrom env fuel (j + 1) t' e.next
          pure (t', .fired t.ticknow cb e.handle e.data :: evs ++ evs')

/-- The loop of `process_tick` that deletes the entries of a bucket from `p` on. -/
def deleteFrom : ℕ → EvTimer → Option ℕ → Except Fault (EvTimer × List TimerEvent)
  | _, t, none => .ok (t, [])
  | 0, _, some _ => .error .hang
  | fuel + 1, t, some p => do
      let e ← deref t.entries p
      let (entryMap, _) ← t.entryMap.removeGet e.handle
      let (pool, entries) ← t.entryPool.free t.entries p
      let t := { t with entryMap := entryMap, entryPool := pool, entries := entries }
      let (t, evs) ← deleteFrom fuel t e.next
      pure (t, .freed e.handle :: evs)

/-- The part of `process_tick` before the current bucket is run. -/
def advance (t : EvTimer) : Except Fault EvTimer := do
  let t := { t with
    ticknow := u32 (t.ticknow + 1)
    slotNow := Function.update t.slotNow 0 (u32 (t.slotNow 0 + 1)) }
  let t ← t.updateWheel 0
  t.updateWheel 1

/-- `EvTimer::process_tick`. -/
def processTick (t : EvTimer) (env : ℕ → List TimerCall) :
    Except Fault (EvTimer × List TimerEvent) := do
  let t ← t.advance
  let head ← t.wheelAt 0 (t.slotNow 0)
  if head = none then .ok (t, [])
  else do
    let (t, evs) ← runFrom env t.entries.bound 0 t head
    let (t, evs') ← deleteFrom t.entries.bound t head
    let t ← t.setWheel 0 (t.slotNow 0) none
    pure (t, evs ++ evs')

end EvTimer

end Axon
