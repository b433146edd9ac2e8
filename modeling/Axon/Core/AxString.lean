import Axon.Core.CommonDef
import Axon.Library.LittleEndian

/-!
# `string_t`

`ax_string.h` and `ax_string.cc`: a string that keeps up to 22 bytes inside the object and longer
contents in a block of the heap.

The object is a union of 24 bytes on a 64-bit machine: `small_`, a `char` array, or `larger_`, a
record of `data_` (bytes 0 to 7), `len_` (8 to 11), `capacity_` (12 to 15) and `dummy`.  The last
byte says which: its highest bit is set for `larger_`, and otherwise it is the length.

* **`Strings`** : the objects, and the heap their blocks are in.  The model keeps the bytes of the
  union, so that what one member's assignment does to the other member can be read off.
* **`CPtr`** : where a `char*` points: to a text of the caller, into an object, or to a block.
* `storage`, `chars`, `memcpy`, `strcpy` : the C library on such pointers.  An access outside the
  storage pointed to is a fault.
* **`Update`** : the calls of `string_t` that give an object a new content.
* **`Growth`** : these, and the two that grow an object.
-/

namespace Axon

open Library

/-- The text of a C string, without the `NUL` that ends it. -/
abbrev CString := { s : List UInt8 // (0 : UInt8) ∉ s }

/-- Where a `char*` points. -/
inductive CPtr (ι : Type) where
  | null
  /-- A text of the caller, outside the objects and their blocks. -/
  | text (s : CString)
  /-- `small_` of an object. -/
  | small (i : ι)
  /-- The block at an address. -/
  | block (a : ℕ)

/-- The answer of `malloc`: the address, with 0 for `NULL`, and the bytes a fresh block holds. -/
structure Malloc where
  addr : ℕ
  junk : ℕ → UInt8

/-- The objects, by name, and the heap. -/
structure Strings (ι : Type) where
  /-- The bytes of the union; those from 24 on are not the object's. -/
  small : ι → ℕ → UInt8
  heap : Heap (List UInt8)

namespace Strings

/-- `sizeof(LargerStr)`. -/
def unionSize : ℕ := 24

/-- `LAST_CHAR`, which is also `TYPE_CHAR`. -/
def lastChar : ℕ := unionSize - 1

/-- `MAX_SMALL_LEN`. -/
def maxSmallLen : ℕ := unionSize - 2

/-- `TYPE_MASK`, which is also the type `LARGER_STR`. -/
def typeMask : UInt8 := 0x80

/-- `SMALL_LEN_MASK`, as far as it concerns a `char`. -/
def smallLenMask : UInt8 := ~~~typeMask

variable {ι : Type} [DecidableEq ι]

/-! ## The union -/

/-- `type() == SMALL_STR`. -/
def IsSmall (m : Strings ι) (i : ι) : Prop := m.small i lastChar &&& typeMask = 0

instance (m : Strings ι) (i : ι) : Decidable (m.IsSmall i) :=
  inferInstanceAs (Decidable (_ = _))

/-- `larger_.data_`, as a number. -/
def dataAddr (m : Strings ι) (i : ι) : ℕ := (leValue (window (m.small i) 0 8)).toNat

/-- `larger_.data_`. -/
def data (m : Strings ι) (i : ι) : CPtr ι :=
  if m.dataAddr i = 0 then .null else .block (m.dataAddr i)

/-- `larger_.len_`. -/
def largerLen (m : Strings ι) (i : ι) : ℕ := word32 (m.small i) 8

/-- `larger_.capacity_`. -/
def largerCapacity (m : Strings ι) (i : ι) : ℕ := word32 (m.small i) 12

/-- Bytes stored into an object at an offset. -/
def poke (m : Strings ι) (i : ι) (off : ℕ) (bs : List UInt8) : Strings ι :=
  { m with small := Function.update m.small i (blit (m.small i) off bs) }

/-- `larger_.data_ = p`. -/
def setData (m : Strings ι) (i : ι) (p : ℕ) : Strings ι := m.poke i 0 (leBytes 8 p)

/-- `larger_.len_ = n`. -/
def setLargerLen (m : Strings ι) (i : ι) (n : ℕ) : Strings ι := m.poke i 8 (le32 n)

/-- `larger_.capacity_ = n`. -/
def setLargerCapacity (m : Strings ι) (i : ι) (n : ℕ) : Strings ι := m.poke i 12 (le32 n)

/-- `small_[TYPE_CHAR] = c`. -/
def setLast (m : Strings ι) (i : ι) (c : UInt8) : Strings ι := m.poke i lastChar [c]

/-- `memset(&larger_, 0, sizeof(larger_))`. -/
def memset (m : Strings ι) (i : ι) : Strings ι := m.poke i 0 (List.replicate unionSize 0)

section
variable (m : Strings ι) (i : ι) (n : ℕ)

@[simp] lemma heap_poke (off : ℕ) (bs : List UInt8) : (m.poke i off bs).heap = m.heap := rfl

@[simp] lemma heap_setData : (m.setData i n).heap = m.heap := heap_poke ..

@[simp] lemma heap_setLargerLen : (m.setLargerLen i n).heap = m.heap := heap_poke ..

@[simp] lemma heap_setLargerCapacity : (m.setLargerCapacity i n).heap = m.heap := heap_poke ..

@[simp] lemma heap_setLast (c : UInt8) : (m.setLast i c).heap = m.heap := heap_poke ..

@[simp] lemma heap_memset : (m.memset i).heap = m.heap := heap_poke ..

end

/-! ## The C library -/

/-- The bytes a pointer may reach. -/
def storage (m : Strings ι) : CPtr ι → Except Fault (List UInt8)
  | .null => .error .badAccess
  | .text s => .ok (s.1 ++ [0])
  | .small i => .ok (window (m.small i) 0 unionSize)
  | .block a => deref m.heap a

/-- The bytes up to the first `NUL`.  Without one the C library runs off the storage. -/
def chars (m : Strings ι) (p : CPtr ι) : Except Fault (List UInt8) := do
  let bs ← m.storage p
  if (0 : UInt8) ∈ bs then
    return bs.takeWhile (· ≠ 0)
  else
    .error .badAccess

/-- `strlen(p)`. -/
def strlen (m : Strings ι) (p : CPtr ι) : Except Fault ℕ := do
  let s ← m.chars p
  return s.length

/-- `!strcmp(p, q)`. -/
def sameChars (m : Strings ι) (p q : CPtr ι) : Except Fault Bool := do
  let s ← m.chars p
  let t ← m.chars q
  return s = t

/-- Bytes stored from a pointer on.  `string_t` writes to no text of the caller. -/
def store (m : Strings ι) (p : CPtr ι) (bs : List UInt8) : Except Fault (Strings ι) :=
  match p with
  | .null => .error .badAccess
  | .text _ => .error .badAccess
  | .small i => if bs.length ≤ unionSize then .ok (m.poke i 0 bs) else .error .badAccess
  | .block a => do
      let old ← deref m.heap a
      if bs.length ≤ old.length then
        return { m with heap := m.heap.write a fun old => bs ++ old.drop bs.length }
      else
        .error .badAccess

/-- `memcpy(p, q, n)`. -/
def memcpy (m : Strings ι) (p q : CPtr ι) (n : ℕ) : Except Fault (Strings ι) := do
  let bs ← m.storage q
  if n ≤ bs.length then
    m.store p (bs.take n)
  else
    .error .badAccess

/-- `strcpy(p, q)`. -/
def strcpy (m : Strings ι) (p q : CPtr ι) : Except Fault (Strings ι) := do
  let s ← m.chars q
  m.store p (s ++ [0])

/-- The heap after `malloc(n)`. -/
def malloc (m : Strings ι) (os : Malloc) (n : ℕ) : Strings ι :=
  if os.addr = 0 then m else { m with heap := m.heap.put os.addr (window os.junk 0 n) }

/-- `free(larger_.data_)`. -/
def freeData (m : Strings ι) (i : ι) : Except Fault (Strings ι) :=
  match m.data i with
  | .block a => do
      let h ← release m.heap a
      return { m with heap := h }
  | _ => .ok m

/-- `::strcat(p, q)`.  The bytes before the `NUL` of `p` are stored as they are. -/
def appendChars (m : Strings ι) (p q : CPtr ι) : Except Fault (Strings ι) := do
  let s ← m.chars p
  let t ← m.chars q
  m.store p (s ++ t ++ [0])

/-- `realloc(larger_.data_, n)`.  The block keeps the bytes common to the old and the new one; it
stays where it is when the address returned is its own. -/
def reallocData (m : Strings ι) (os : Malloc) (i : ι) (n : ℕ) : Except Fault (Strings ι) :=
  match m.data i with
  | .block a => do
      let old ← deref m.heap a
      if os.addr = 0 then
        return m
      else
        let bytes := old.take n ++ (window os.junk 0 n).drop old.length
        return { m with heap := (m.heap.free a).put os.addr bytes }
  | _ => .ok (m.malloc os n)

/-! ## The member functions -/

/-- `len()`. -/
def len (m : Strings ι) (i : ι) : ℕ :=
  if m.IsSmall i then (m.small i lastChar &&& smallLenMask).toNat else m.largerLen i

/-- `capacity()`. -/
def capacity (m : Strings ι) (i : ι) : ℕ :=
  if m.IsSmall i then maxSmallLen else m.largerCapacity i

/-- `c_str()`. -/
def cStr (m : Strings ι) (i : ι) : CPtr ι := if m.IsSmall i then .small i else m.data i

/-- `equal(cstr)` and `operator==(cstr)`. -/
def equalCstr (m : Strings ι) (i : ι) (cstr : CPtr ι) : Except Fault Bool :=
  match cstr with
  | .null => .ok false
  | cstr => do
      let n ← m.strlen cstr
      if u32 n ≠ m.len i then
        return false
      else if m.IsSmall i then
        m.sameChars (.small i) cstr
      else
        m.sameChars (m.data i) cstr

/-- `equal(rhs)` and `operator==(rhs)`. -/
def equal (m : Strings ι) (i j : ι) : Except Fault Bool := m.equalCstr i (m.cStr j)

/-- The constructor from a C string, once the object is zeros and `cstr` is not `NULL`. -/
def constructText (m : Strings ι) (os : Malloc) (i : ι) (cstr : CPtr ι) :
    Except Fault (Strings ι) := do
  let len := u32 (← m.strlen cstr)
  if len ≤ maxSmallLen ∧ len < lastChar then
    let m ← m.memcpy (.small i) cstr len
    return m.setLast i (m.small i lastChar ||| (UInt8.ofNat len &&& smallLenMask))
  else
    let allocSize := u32 (len + 1)
    let m := m.setLargerLen i len
    let m := m.setLargerCapacity i len
    let m := (m.malloc os allocSize).setData i os.addr
    let m ← m.memcpy (m.data i) cstr allocSize
    return m.setLast i typeMask

/-- `string_t(const char* cstr)`; `string_t()` does what this does for `NULL`. -/
def construct (m : Strings ι) (os : Malloc) (i : ι) (cstr : CPtr ι) :
    Except Fault (Strings ι) :=
  match cstr with
  | .null => .ok (m.memset i)
  | cstr => (m.memset i).constructText os i cstr

/-- What `string_t(const string_t &rhs)` and `operator=` do once the object holds no block: the
whole union is copied, or the block. -/
def copyFrom (m : Strings ι) (os : Malloc) (i j : ι) : Except Fault (Strings ι) :=
  if m.IsSmall j then
    m.memcpy (.small i) (.small j) unionSize
  else do
    let allocSize := u32 (m.largerLen j + 1)
    let m := (m.malloc os allocSize).setData i os.addr
    let m ← m.memcpy (m.data i) (m.data j) allocSize
    let m := m.setLargerLen i (m.largerLen j)
    let m := m.setLargerCapacity i (m.largerLen i)
    return m.setLast i (m.small j lastChar)

/-- `string_t(const string_t &rhs)`. -/
def copyConstruct (m : Strings ι) (os : Malloc) (i j : ι) : Except Fault (Strings ι) :=
  if j = i then .ok m else m.copyFrom os i j

/-- `clear()`. -/
def clear (m : Strings ι) (i : ι) : Except Fault (Strings ι) := do
  let m ← if m.IsSmall i then .ok m else m.freeData i
  return m.memset i

/-- `~string_t()`. -/
def destroy (m : Strings ι) (i : ι) : Except Fault (Strings ι) :=
  if m.IsSmall i then .ok m else m.freeData i

/-- `operator=(rhs)`. -/
def copyAssign (m : Strings ι) (os : Malloc) (i j : ι) : Except Fault (Strings ι) := do
  let m ← m.clear i
  m.copyFrom os i j

/-- `assign(s)`. -/
def assign (m : Strings ι) (os : Malloc) (i : ι) (s : CPtr ι) : Except Fault (Strings ι) := do
  let lenS := u32 (← m.strlen s)
  let m ← m.clear i
  if maxSmallLen < lenS then
    let allocSize := u32 (lenS + 1)
    let m := (m.malloc os allocSize).setData i os.addr
    let m := m.setLargerCapacity i lenS
    let m ← m.strcpy (m.data i) s
    let m := m.setLargerLen i lenS
    return m.setLast i typeMask
  else
    let m ← m.strcpy (.small i) s
    return m.setLast i (UInt8.ofNat lenS &&& smallLenMask)

/-- The text in the local array `tmp` of `expand`.  The array is copied to when the string is not
empty; otherwise it holds what was on the stack, `junk`. -/
def expandTmp (m : Strings ι) (junk : ℕ → UInt8) (i : ι) : Except Fault (List UInt8) := do
  let tmp ← if 0 < m.len i then do
      let s ← m.chars (.small i)
      if s.length ≤ maxSmallLen then .ok (blit junk 0 (s ++ [0])) else .error .badAccess
    else .ok junk
  let bytes := window tmp 0 (maxSmallLen + 1)
  if (0 : UInt8) ∈ bytes then
    return bytes.takeWhile (· ≠ 0)
  else
    .error .badAccess

/-- `expand(n)`. -/
def expand (m : Strings ι) (os : Malloc) (junk : ℕ → UInt8) (i : ι) (n : ℕ) :
    Except Fault (Strings ι) :=
  let allocSize := u32 (n + 1)
  let slen := m.len i
  if n < maxSmallLen then
    .ok m
  else if m.IsSmall i then do
    let text ← m.expandTmp junk i
    let m := (m.malloc os allocSize).setData i os.addr
    let m ← m.store (m.data i) (List.replicate allocSize 0)
    let m ← m.store (m.data i) (text ++ [0])
    return ((m.setLargerCapacity i n).setLargerLen i slen).setLast i typeMask
  else if m.largerCapacity i < n then do
    let m ← m.reallocData os i allocSize
    let _ ← rtAssert "newp != NULL" (os.addr ≠ 0)
    let m := m.setData i os.addr
    return ((m.setLargerCapacity i n).setLargerLen i slen).setLast i typeMask
  else
    .ok m

/-- `if (new_len > capacity()) expand(new_len)`. -/
def reserve (m : Strings ι) (os : Malloc) (junk : ℕ → UInt8) (i : ι) (newLen : ℕ) :
    Except Fault (Strings ι) :=
  if m.capacity i < newLen then m.expand os junk i newLen else .ok m

/-- `strcat(s)`; `strcat(rhs)` passes `rhs.c_str()`. -/
def strcat (m : Strings ι) (os : Malloc) (junk : ℕ → UInt8) (i : ι) (s : CPtr ι) :
    Except Fault (Strings ι) := do
  let lenS := u32 (← m.strlen s)
  let newLen := u32 (lenS + m.len i)
  let m ← m.reserve os junk i newLen
  if maxSmallLen < newLen then
    let m ← m.appendChars (m.data i) s
    return m.setLargerLen i newLen
  else
    let m ← m.appendChars (.small i) s
    let m := m.setLast i (m.small i lastChar &&& typeMask)
    return m.setLast i (m.small i lastChar ||| (UInt8.ofNat newLen &&& smallLenMask))

/-! ## Calls -/

/-- The argument of a call that takes a C string. -/
inductive Source (ι : Type) where
  | null
  | text (s : CString)
  /-- `c_str()` of an object. -/
  | cStr (j : ι)

/-- The calls that give an object a new content. -/
inductive Update (ι : Type) where
  | construct (i : ι) (src : Source ι)
  | copyConstruct (i j : ι)
  | copyAssign (i j : ι)
  | assign (i : ι) (src : Source ι)
  | clear (i : ι)
  | destroy (i : ι)

/-- The pointer passed. -/
def Source.ptr (m : Strings ι) : Source ι → CPtr ι
  | .null => .null
  | .text s => .text s
  | .cStr j => m.cStr j

/-- The object changed. -/
def Update.target : Update ι → ι
  | .construct i _ | .copyConstruct i _ | .copyAssign i _ | .assign i _ | .clear i
  | .destroy i => i

/-- The call made. -/
def Update.run (m : Strings ι) (os : Malloc) : Update ι → Except Fault (Strings ι)
  | .construct i src => m.construct os i (src.ptr m)
  | .copyConstruct i j => m.copyConstruct os i j
  | .copyAssign i j => m.copyAssign os i j
  | .assign i src => m.assign os i (src.ptr m)
  | .clear i => m.clear i
  | .destroy i => m.destroy i

/-- All calls that change an object. -/
inductive Growth (ι : Type) where
  | update (u : Update ι)
  | expand (i : ι) (n : ℕ)
  | strcat (i : ι) (src : Source ι)

/-- The object changed. -/
def Growth.target : Growth ι → ι
  | .update u => u.target
  | .expand i _ | .strcat i _ => i

/-- The call made, with `junk` on the stack. -/
def Growth.run (m : Strings ι) (os : Malloc) (junk : ℕ → UInt8) :
    Growth ι → Except Fault (Strings ι)
  | .update u => u.run m os
  | .expand i n => m.expand os junk i n
  | .strcat i src => m.strcat os junk i (src.ptr m)

end Strings

end Axon
