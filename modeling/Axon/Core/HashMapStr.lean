import Axon.Core.AxStringLaid
import Axon.Core.Hashmap
import Axon.Library.Traced

/-!
# The hash table `HashMapStr`

`ax_hashmap.h` for keys that are `string_t`.  A key is an object with storage of its own: each entry
has one, `find` and `insert` get theirs by value, and `do_hash` copies it once more.

* **`KeyObj`** : the `string_t` objects there are, by name.
* **`HashMapStr`** : the table, whose entries name their keys, and the memory of the objects.
* **`strHash`** : the ELF hash of a C string.
* **`HashMapStr.doHash`**, **`find`**, **`findCstr`**, **`insert`**, **`remove`**, **`rehash`** :
  the member functions that look at keys.  The two overloads of `find` are `find` and `findCstr`.

What else the functions do is in `HmapT`, whose functions are used with the value that `do_hash` has
returned.  Each `string_t` function that may ask for memory logs the answer of `malloc` and the heap
it was given for.
-/

namespace Axon

open Library Strings

/-- The `string_t` objects. -/
inductive KeyObj where
  /-- The member `key` of the entry at an address. -/
  | key (a : ℕ)
  /-- A variable of the caller. -/
  | var (x : ℕ)
  /-- The parameter of `find` and `insert`, by value. -/
  | param
  /-- The parameter of `do_hash`, by value. -/
  | hashed
deriving DecidableEq, Repr

/-- `hmap_t<string_t>`, with the objects. -/
structure HashMapStr (V : Type) where
  map : HmapT KeyObj V
  mem : Strings KeyObj

/-- One round of the loop of `str_hash`.  A `char` is signed: a byte above 127 counts as a negative
number. -/
def strHashStep (hash : UInt32) (c : UInt8) : UInt32 :=
  let hash := (hash <<< 4) + c.toInt8.toInt32.toUInt32
  let x := hash &&& 0xF0000000
  if x ≠ 0 then (hash ^^^ (x >>> 24)) &&& ~~~x else hash

/-- `hmap_t::str_hash`, of the characters before the `NUL`. -/
def strHash (s : List UInt8) : ℕ := (s.foldl strHashStep 0 &&& 0x7FFFFFFF).toNat

/-- What is passed for a parameter of type `string_t`. -/
inductive KeyArg where
  | obj (i : KeyObj)
  /-- `string_t(s)`: the parameter itself is constructed from the text. -/
  | text (s : CString)

/-- The answer of `malloc`, and the heap it was given for. -/
abbrev MallocAnswer := Malloc × Heap (List UInt8)

/-- A computation that asks for memory. -/
abbrev Asking := Traced MallocAnswer Fault

namespace HashMapStr

variable {V : Type}

/-- A call of `string_t`; `malloc` is what the C library answers. -/
def update (malloc : Heap (List UInt8) → Malloc) (mem : Strings KeyObj) (u : Update KeyObj) :
    Asking (Strings KeyObj) :=
  .tell (malloc (u.mallocHeap mem), u.mallocHeap mem) (u.run mem (malloc (u.mallocHeap mem)))

/-- The parameter is initialised. -/
def pass (malloc : Heap (List UInt8) → Malloc) (mem : Strings KeyObj) :
    KeyArg → Asking (Strings KeyObj)
  | .obj i => update malloc mem (.copyConstruct .param i)
  | .text s => update malloc mem (.construct .param (.text s))

/-- `do_hash(string_t k)`. -/
def doHash (malloc : Heap (List UInt8) → Malloc) (mem : Strings KeyObj) (i : KeyObj) :
    Asking (ℕ × Strings KeyObj) := do
  let mem ← update malloc mem (.copyConstruct .hashed i)
  let s ← .lift (mem.chars (mem.cStr .hashed))
  let mem ← update malloc mem (.destroy .hashed)
  pure (strHash s, mem)

/-- The functions of the table are used with the value that `do_hash` has returned. -/
@[reducible] def returned (h : ℕ) : HashKey KeyObj := ⟨fun _ => h⟩

/-- `table_[h % nslot_]`. -/
def headOf (m : HmapT KeyObj V) (h : ℕ) : Except Fault (Option ℕ) :=
  if m.nslot = 0 then .error .divByZero else m.tableAt (h % m.nslot)

/-- The loop of both overloads of `find`; `test` is the comparison of the key of an entry. -/
def findFrom (test : KeyObj → Except Fault Bool) (h : Heap (HmapEntry KeyObj V)) :
    ℕ → Option ℕ → Except Fault (Option ℕ)
  | _, none => .ok none
  | 0, some _ => .error .hang
  | fuel + 1, some a => do
      let e ← deref h a
      if ← test e.key then .ok (some a) else findFrom test h fuel e.next

/-- `hmap_t::find(string_t key)`. -/
def find (malloc : Heap (List UInt8) → Malloc) (st : HashMapStr V) (key : KeyArg) :
    Asking (Option ℕ × HashMapStr V) := do
  let mem ← pass malloc st.mem key
  let (h, mem) ← doHash malloc mem .param
  let head ← .lift (headOf st.map h)
  let entry ← .lift
    (findFrom (fun i => mem.equal i .param) st.map.entries st.map.entries.bound head)
  let mem ← update malloc mem (.destroy .param)
  pure (entry, { st with mem := mem })

/-- `hmap_t::find(const char* s)`. -/
def findCstr (st : HashMapStr V) (s : CString) : Except Fault (Option ℕ) := do
  let head ← headOf st.map (strHash s.1)
  findFrom (fun i => st.mem.equalCstr i (.text s)) st.map.entries st.map.entries.bound head

/-- `hmap_t::insert`; `a` is the address `alloc_entry` returns.  The constructor of the entry
constructs an empty key, which is then assigned to. -/
def insert (malloc : Heap (List UInt8) → Malloc) (st : HashMapStr V) (a : ℕ) (key : KeyArg)
    (val : Option V) : Asking (HashMapStr V) := do
  let mem ← pass malloc st.mem key
  let (h, mem) ← doHash malloc mem .param
  let mem ← update malloc mem (.construct (.key a) .null)
  let mem ← update malloc mem (.copyAssign (.key a) .param)
  let map ← .lift (@HmapT.insert KeyObj V (returned h) st.map a (.key a) val)
  let mem ← update malloc mem (.destroy .param)
  pure ⟨map, mem⟩

/-- `hmap_t::remove` of the entry at an address; the destructor of the entry destroys its key. -/
def remove (malloc : Heap (List UInt8) → Malloc) (st : HashMapStr V) (a : ℕ) :
    Asking (HashMapStr V) := do
  let e ← .lift (deref st.map.entries a)
  let (h, mem) ← doHash malloc st.mem e.key
  let map ← .lift (@HmapT.remove KeyObj V (returned h) st.map (some a))
  let mem ← update malloc mem (.destroy e.key)
  pure ⟨map, mem⟩

/-- The loop of `hmap_t::rehash`, as in `HmapT.rehashFrom`. -/
def rehashFrom (malloc : Heap (List UInt8) → Malloc) (n newBytes : ℕ) :
    ℕ → Strings KeyObj → Heap (HmapEntry KeyObj V) → (ℕ → Option ℕ) → Option ℕ →
    Asking (Strings KeyObj × Heap (HmapEntry KeyObj V) × (ℕ → Option ℕ))
  | _, mem, h, newTable, none => pure (mem, h, newTable)
  | 0, _, _, _, some _ => .lift (.error .hang)
  | fuel + 1, mem, h, newTable, some p => do
      let e ← .lift (deref h p)
      let (hash, mem) ← doHash malloc mem e.key
      let s := hash % n
      if newBytes < 8 * s + 8 then .lift (.error .badAccess)
      else do
        let h ← .lift (assignIf h (newTable s) fun e => { e with prev := some p })
        let h ← .lift (assign h p fun e => { e with next := newTable s, prev := none })
        rehashFrom malloc n newBytes fuel mem h (Function.update newTable s (some p)) e.linkNext

/-- `hmap_t::rehash`. -/
def rehash (malloc : Heap (List UInt8) → Malloc) (os : Libc) (st : HashMapStr V) (n : ℕ) :
    Asking (HashMapStr V) := do
  .lift (rtAssert "n > 0" (0 < n))
  let allocSize := u32 (n * 8)
  .lift (rtAssert "new_table != NULL" ((os.malloc allocSize).isSome))
  let (mem, h, newTable) ← rehashFrom malloc n allocSize st.map.entries.bound st.mem
    st.map.entries (fun _ => none) st.map.linkHead
  pure
    { map := { st.map with entries := h, table := newTable, tableBytes := allocSize, nslot := n }
      mem := mem }

/-- `detach_link` and `attach_link_head` of an entry, which do not look at keys. -/
def lruMove (st : HashMapStr V) (a : ℕ) : Except Fault (HashMapStr V) := do
  let map ← st.map.detachLink (some a)
  let map ← map.attachLinkHead (some a)
  return { st with map := map }

/-! ## Calls -/

/-- What the program does: with its strings, and with the table. -/
inductive Op (V : Type) where
  | string (u : Update KeyObj)
  | insert (a : ℕ) (key : KeyArg) (val : Option V)
  | remove (a : ℕ)
  | rehash (os : Libc) (n : ℕ)
  | lruMove (a : ℕ)
  | find (key : KeyArg)

/-- Makes a call. -/
def Op.run (malloc : Heap (List UInt8) → Malloc) (st : HashMapStr V) :
    Op V → Asking (HashMapStr V)
  | .string u => do
      let mem ← update malloc st.mem u
      pure { st with mem := mem }
  | .insert a key val => st.insert malloc a key val
  | .remove a => st.remove malloc a
  | .rehash os n => st.rehash malloc os n
  | .lruMove a => .lift (st.lruMove a)
  | .find key => do
      let (_, st) ← st.find malloc key
      pure st

end HashMapStr

end Axon
