import Axon.Core.CommonDef
import Axon.Library.LinkedList

/-!
# The hash table `hmap_t`

`ax_hashmap.h`: a hash table whose entries are also threaded on one list for iteration.  An entry is
in two doubly linked lists at once, the bucket list of its slot (`next`, `prev`) and the link list
of the whole table (`link_next`, `link_prev`); both are reached through raw head pointers.

* **`HmapEntry`**, **`HmapT`** : the fields of `hmap_entry_t` and `hmap_t`.  The entries allocated
  by `new` and not yet deleted are the records of a `Library.Heap`, and a pointer to one is its
  address.
* **`HmapT.insert`**, **`find`**, **`getData`**, **`removeGet`**, **`remove`**, **`detach`**,
  **`detachLink`**, **`attachLinkHead`**, **`rehash`**, **`removeAll`** : the member functions.

The address of a new entry is chosen by `operator new`, so `insert` takes it as an argument.  A loop
along the entries that meets more of them than there are does not end.  Values are `void*`; what
they point to is the type `V`, and `NULL` is `none`.
-/

namespace Axon

open Library

/-- The key types `do_hash` is overloaded for. -/
class HashKey (K : Type) where
  doHash : K → ℕ

/-- `do_hash(uint32_t)`, also for an `int` key. -/
instance : HashKey ℤ := ⟨fun k => (k % 2 ^ 32).toNat⟩

/-- `hmap_entry_t`. -/
structure HmapEntry (K V : Type) where
  data : Option V
  key : K
  /-- Bucket list. -/
  next : Option ℕ
  prev : Option ℕ
  /-- Whole link list. -/
  linkNext : Option ℕ
  linkPrev : Option ℕ

/-- The fields of `hmap_t`, with the entries its pointers lead to. -/
structure HmapT (K V : Type) where
  entries : Heap (HmapEntry K V)
  table : ℕ → Option ℕ
  /-- Bytes allocated for `table_`. -/
  tableBytes : ℕ
  linkHead : Option ℕ
  nslot : ℕ
  size : ℕ

namespace HmapT

variable {K V : Type}

/-- `hmap_t::hmap_t`. -/
def new (os : Libc) (n : ℕ) : Except Fault (HmapT K V) := do
  let allocSize := u32 (n * 8)
  rtAssert "table_ != NULL" ((os.malloc allocSize).isSome)
  pure
    { entries := Heap.empty
      table := fun _ => none
      tableBytes := allocSize
      linkHead := none
      nslot := n
      size := 0 }

/-- Reads `table_[h]`. -/
def tableAt (m : HmapT K V) (h : ℕ) : Except Fault (Option ℕ) :=
  if 8 * h + 8 ≤ m.tableBytes then .ok (m.table h) else .error .badAccess

/-- Assigns to `table_[h]`. -/
def setTable (m : HmapT K V) (h : ℕ) (p : Option ℕ) : Except Fault (HmapT K V) :=
  if 8 * h + 8 ≤ m.tableBytes then .ok { m with table := Function.update m.table h p }
  else .error .badAccess

/-! ## The link list -/

/-- `hmap_t::attach_link_head`. -/
def attachLinkHead (m : HmapT K V) (entry : Option ℕ) : Except Fault (HmapT K V) :=
  match entry with
  | none => .error (.rtAssert "entry != NULL")
  | some a => do
      let h ← assign m.entries a fun e => { e with linkPrev := none }
      match m.linkHead with
      | none =>
          let h ← assign h a fun e => { e with linkNext := none }
          pure { m with entries := h, linkHead := some a }
      | some b =>
          let h ← assign h a fun e => { e with linkNext := some b }
          let h ← assign h b fun e => { e with linkPrev := some a }
          pure { m with entries := h, linkHead := some a }

/-- `hmap_t::detach_link`. -/
def detachLink (m : HmapT K V) (entry : Option ℕ) : Except Fault (HmapT K V) :=
  match entry with
  | none => .ok m
  | some a => do
      let e ← deref m.entries a
      let p := e.linkPrev
      let q := e.linkNext
      let h ← assignIf m.entries p fun e => { e with linkNext := q }
      let h ← assignIf h q fun e => { e with linkPrev := p }
      let linkHead := if m.linkHead = some a then q else m.linkHead
      let h ← assign h a fun e => { e with linkNext := none, linkPrev := none }
      pure { m with entries := h, linkHead := linkHead }

/-- The loop of a caller from `p` along `get_link_next()`. -/
def walkFrom (h : Heap (HmapEntry K V)) : ℕ → Option ℕ → Except Fault (List ℕ)
  | _, none => .ok []
  | 0, some _ => .error .hang
  | fuel + 1, some a => do
      let e ← deref h a
      let l ← walkFrom h fuel e.linkNext
      pure (a :: l)

/-- The entries a caller visits from `head()` along `get_link_next()`. -/
def walk (m : HmapT K V) : Except Fault (List ℕ) :=
  walkFrom m.entries m.entries.bound m.linkHead

/-! ## The table -/

section Keys

variable [DecidableEq K] [HashKey K]

/-- `do_hash(key) % nslot_`. -/
def slotOf (m : HmapT K V) (key : K) : Except Fault ℕ :=
  if m.nslot = 0 then .error .divByZero else .ok (HashKey.doHash key % m.nslot)

/-- `hmap_t::insert`; `a` is the address `alloc_entry` returns. -/
def insert (m : HmapT K V) (a : ℕ) (key : K) (val : Option V) : Except Fault (HmapT K V) := do
  let h ← m.slotOf key
  let head ← m.tableAt h
  let entries ← assignIf m.entries head fun e => { e with prev := some a }
  -- the constructor of the entry and the four assignments to it
  let entries := entries.put a
    { data := val, key := key, next := head, prev := none, linkNext := none, linkPrev := none }
  let m ← { m with entries := entries }.setTable h (some a)
  let m ← m.attachLinkHead (some a)
  pure { m with size := u32 (m.size + 1) }

/-- The loop of `hmap_t::find` along a bucket list. -/
def findFrom (h : Heap (HmapEntry K V)) (key : K) : ℕ → Option ℕ → Except Fault (Option ℕ)
  | _, none => .ok none
  | 0, some _ => .error .hang
  | fuel + 1, some a => do
      let e ← deref h a
      if e.key = key then .ok (some a) else findFrom h key fuel e.next

/-- `hmap_t::find`. -/
def find (m : HmapT K V) (key : K) : Except Fault (Option ℕ) := do
  let h ← m.slotOf key
  let head ← m.tableAt h
  findFrom m.entries key m.entries.bound head

/-- `hmap_t::get_data`. -/
def getData (m : HmapT K V) (key : K) : Except Fault (Option V) := do
  match ← m.find key with
  | none => .ok none
  | some a =>
      let e ← deref m.entries a
      pure e.data

/-- `hmap_t::detach`. -/
def detach (m : HmapT K V) (entry : Option ℕ) : Except Fault (HmapT K V) :=
  match entry with
  | none => .ok m
  | some a => do
      let e ← deref m.entries a
      let slot ← m.slotOf e.key
      let p := e.prev
      let q := e.next
      let h ← assignIf m.entries p fun e => { e with next := q }
      let h ← assignIf h q fun e => { e with prev := p }
      let head ← m.tableAt slot
      let m ← (if head = some a then m.setTable slot q else .ok m : Except Fault (HmapT K V))
      let h ← assign h a fun e => { e with next := none, prev := none }
      let m ← { m with entries := h }.detachLink (some a)
      -- `--size_` on a `uint32_t`
      pure { m with size := u32 (m.size + (2 ^ 32 - 1)) }

/-- `hmap_t::remove`. -/
def remove (m : HmapT K V) (entry : Option ℕ) : Except Fault (HmapT K V) :=
  match entry with
  | none => .ok m
  | some a => do
      let m ← m.detach (some a)
      let h ← release m.entries a
      pure { m with entries := h }

/-- `hmap_t::remove_get`. -/
def removeGet (m : HmapT K V) (key : K) : Except Fault (HmapT K V × Option V) := do
  match ← m.find key with
  | none => .ok (m, none)
  | some a =>
      let e ← deref m.entries a
      let m ← m.remove (some a)
      pure (m, e.data)

/-- The loop of `hmap_t::remove_all`. -/
def removeAllFrom : ℕ → HmapT K V → Except Fault (HmapT K V)
  | 0, m => if m.linkHead = none then .ok m else .error .hang
  | fuel + 1, m =>
      match m.linkHead with
      | none => .ok m
      | some a => do
          let m ← m.remove (some a)
          removeAllFrom fuel m

/-- `hmap_t::remove_all`. -/
def removeAll (m : HmapT K V) : Except Fault (HmapT K V) :=
  removeAllFrom m.entries.bound m

/-- The loop of `hmap_t::rehash`: moves the entries from `p` on into the table of `n` slots. -/
def rehashFrom (n newBytes : ℕ) : ℕ → Heap (HmapEntry K V) → (ℕ → Option ℕ) → Option ℕ →
    Except Fault (Heap (HmapEntry K V) × (ℕ → Option ℕ))
  | _, h, newTable, none => .ok (h, newTable)
  | 0, _, _, some _ => .error .hang
  | fuel + 1, h, newTable, some p => do
      let e ← deref h p
      let s := HashKey.doHash e.key % n
      if newBytes < 8 * s + 8 then .error .badAccess
      else
        let h ← assignIf h (newTable s) fun e => { e with prev := some p }
        let h ← assign h p fun e => { e with next := newTable s, prev := none }
        -- no assignment of the loop is to `link_next`
        rehashFrom n newBytes fuel h (Function.update newTable s (some p)) e.linkNext

/-- `hmap_t::rehash`. -/
def rehash (os : Libc) (m : HmapT K V) (n : ℕ) : Except Fault (HmapT K V) := do
  rtAssert "n > 0" (0 < n)
  let allocSize := u32 (n * 8)
  rtAssert "new_table != NULL" ((os.malloc allocSize).isSome)
  let (h, newTable) ←
    rehashFrom n allocSize m.entries.bound m.entries (fun _ => none) m.linkHead
  pure { m with entries := h, table := newTable, tableBytes := allocSize, nslot := n }

end Keys

end HmapT

end Axon
