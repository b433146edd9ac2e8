import Axon.Core.CommonDef
import Axon.Library.LittleEndian
import Mathlib.Logic.Function.Basic

/-!
# The queue of variable-length messages, `queue_t`

`ax_queue.cc`: messages are laid out one behind the other in chunks of memory.  A message is a
header of two `int`s, length and type, and the payload.  `chunk_begin_` and `pos_begin_` say where
the oldest message is, `chunk_end_` and `pos_end_` where the next one goes, `chunk_back_` and
`pos_back_` where the newest one is.

Chunks live in a heap indexed by the order of their creation; a pointer to a chunk is its index.  A
store or a header read outside the capacity of a chunk is a `badAccess`.
-/

namespace Axon

open Library

/-- `buf_chunk_t`. -/
structure BufChunkT where
  capacity : ℕ
  nelems : ℕ
  data : ℕ → UInt8
  prev : Option ℕ
  next : Option ℕ

/-- A message as `front()` shows it: `var_msg_t` and the payload behind it. -/
structure VarMsg where
  length : ℤ
  type : Int32
  data : List UInt8
deriving DecidableEq

/-- `queue_t`, with the heap its chunks live in. -/
structure QueueT where
  /-- The chunks created so far. -/
  chunks : ℕ → BufChunkT
  /-- How many there are. -/
  nchunks : ℕ
  eachCapacity : ℕ
  chunkSpare : Option ℕ
  chunkBegin : ℕ
  posBegin : ℤ
  chunkBack : Option ℕ
  posBack : ℕ
  chunkEnd : ℕ
  posEnd : ℕ
  nelems : ℕ

/-- `VAR_MSG_HLEN`: the offset of the payload in `var_msg_t`. -/
def varMsgHlen : ℕ := 8

/-- `sizeof(var_msg_t)`: two `int`s, one `char`, padded. -/
def sizeofVarMsg : ℕ := 12

/-- The bits of an `int`. -/
def intBits (x : ℤ) : ℕ := (x % 2 ^ 32).toNat

/-- The `int` with the given bits. -/
def bitsInt (n : ℕ) : ℤ := if n < 2 ^ 31 then n else n - 2 ^ 32

lemma bitsInt_intBits {n : ℕ} (h : n < 2 ^ 31) : bitsInt (intBits n) = n := by
  have : intBits n = n := by
    rw [intBits]
    omega
  rw [this, bitsInt, if_pos h]

namespace QueueT

/-- `capacity_limit`. -/
def capacityLimit : ℕ := 4000000

/-- `buf_chunk_t::buf_chunk_t(n)`; `junk` is what the memory held. -/
def newChunk (junk : ℕ → UInt8) (n : ℕ) : BufChunkT :=
  { capacity := n, nelems := 0, data := junk, prev := none, next := none }

/-- `queue_t::queue_t(n)`. -/
def new (junk : ℕ → UInt8) (n : ℕ) : Except Fault QueueT := do
  rtAssert "n < capacity_limit" (n < capacityLimit)
  pure
    { chunks := fun _ => newChunk junk n, nchunks := 1, eachCapacity := n, chunkSpare := none,
      chunkBegin := 0, posBegin := 0, chunkBack := none, posBack := 0, chunkEnd := 0, posEnd := 0,
      nelems := 0 }

/-- Change one chunk. -/
def setChunk (q : QueueT) (c : ℕ) (f : BufChunkT → BufChunkT) : QueueT :=
  { q with chunks := Function.update q.chunks c (f (q.chunks c)) }

/-- The bytes `push` stores at the address of a message: length, type, and the payload unless
`vdata` is `NULL`. -/
def msgBytes (n : ℕ) (type : Int32) (vdata : Option (List UInt8)) : List UInt8 :=
  le32 (intBits n) ++ le32 type.toUInt32.toNat ++ vdata.getD []

/-- The number of bytes a message of `n` payload bytes takes up. -/
def totalLen (n : ℕ) : ℕ :=
  if u32 (n + varMsgHlen) < sizeofVarMsg then sizeofVarMsg else u32 (n + varMsgHlen)

/-- The branch of `push` for a message that does not fit behind the last one: take the spare chunk
or make a new one and chain it behind `chunk_end_`.  `chunk_end_` itself stays where it is. -/
def nextChunk (q : QueueT) (junk : ℕ → UInt8) (total : ℕ) : QueueT :=
  let fromSpare : Option ℕ :=
    q.chunkSpare.filter fun s => total < (q.chunks s).capacity
  match fromSpare with
  | some s =>
      let spare := (q.chunks s).next
      let q := match spare with
        | some r => q.setChunk r fun k => { k with prev := none }
        | none => q
      let q := q.setChunk s fun k => { k with next := none, prev := some q.chunkEnd }
      let q := q.setChunk q.chunkEnd fun k => { k with next := some s }
      { q with chunkSpare := spare, chunkBack := some s, posEnd := 0 }
  | none =>
      let cap := max q.eachCapacity total
      let s := q.nchunks
      let q := q.setChunk s fun _ => { newChunk junk cap with prev := some q.chunkEnd }
      let q := q.setChunk q.chunkEnd fun k => { k with next := some s }
      { q with nchunks := s + 1, chunkBack := some s, posEnd := 0 }

/-- `queue_t::push(n, type, vdata)` and its return value. -/
def push (q : QueueT) (junk : ℕ → UInt8) (n : ℤ) (type : Int32) (vdata : Option (List UInt8)) :
    Except Fault (QueueT × ℤ) := do
  rtAssert "n > 0" (0 < n)
  let total := totalLen n.toNat
  if capacityLimit < total then pure (q, axRetFull)
  else do
    let q := if u32 (q.posEnd + total) < (q.chunks q.chunkEnd).capacity then q
      else q.nextChunk junk total
    let bytes := msgBytes n.toNat type vdata
    if (q.chunks q.chunkEnd).capacity < q.posEnd + bytes.length then .error .badAccess
    else
      let q := q.setChunk q.chunkEnd fun k =>
        { k with data := blit k.data q.posEnd bytes, nelems := k.nelems + 1 }
      pure ({ q with
        chunkBack := some q.chunkEnd
        posBack := q.posEnd
        posEnd := q.posEnd + total
        nelems := q.nelems + 1 }, axRetOk)

/-- The message at an offset of a chunk. -/
def msgAt (k : BufChunkT) (off : ℕ) : VarMsg :=
  let length := bitsInt (word32 k.data off)
  { length, type := (UInt32.ofNat (word32 k.data (off + 4))).toInt32,
    data := window k.data (off + varMsgHlen) length.toNat }

/-- `*front()`. -/
def front (q : QueueT) : VarMsg := msgAt (q.chunks q.chunkBegin) q.posBegin.toNat

/-- `*back()`, for a queue with a newest message. -/
def back (q : QueueT) : Option VarMsg :=
  q.chunkBack.map fun c => msgAt (q.chunks c) q.posBack

/-- `queue_t::count()`. -/
def count (q : QueueT) : ℕ := q.nelems

/-- `queue_t::pop()`. -/
def pop (q : QueueT) : Except Fault QueueT :=
  if (q.chunks q.chunkBegin).nelems = 0 then .ok q
  else if q.posBegin < 0 ∨ ((q.chunks q.chunkBegin).capacity : ℤ) < q.posBegin + varMsgHlen then
    .error .badAccess
  else do
    let q := { q with
      posBegin := Int.bmod (q.posBegin + varMsgHlen + q.front.length) (2 ^ 32)
      nelems := q.nelems - 1 }
    let q := q.setChunk q.chunkBegin fun k => { k with nelems := k.nelems - 1 }
    if (q.chunks q.chunkBegin).nelems = 0 then
      if q.chunkBack = some q.chunkBegin then do
        -- no more data in the queue, reset this chunk
        rtAssert "chunk_end_ == chunk_begin_" (q.chunkEnd = q.chunkBegin)
        pure { q with posBack := 0, chunkBack := none, posEnd := 0, posBegin := 0 }
      else
        -- the emptied chunk is chained in front of the spare chunks, `chunk_spare_` stays
        let q := match q.chunkSpare with
          | some s => q.setChunk s fun k => { k with prev := some q.chunkBegin }
          | none => q
        let q := q.setChunk q.chunkBegin fun k => { k with next := q.chunkSpare, prev := none }
        -- `chunk_begin_->next` is read after it has been overwritten
        match (q.chunks q.chunkBegin).next with
        | none => .error .badAccess
        | some b =>
            let q := q.setChunk b fun k => { k with prev := none }
            pure { q with chunkBegin := b, posBegin := 0 }
    else pure q

end QueueT

end Axon
