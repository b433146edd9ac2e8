import Axon.Core.CommonDef
import Axon.Library.Window

/-!
# The byte buffer `buffer_t`

`ax_buffer.cc`: a growing byte buffer with a window `[start_, end_)` of valid data inside its
storage.  `pop` moves the front of the window, `push` extends it at the back; when the back runs out
of room the window is shifted to the front of the storage, the storage is enlarged, or, after a
summit has passed, replaced by a block of the initial size.

The storage is a block of `Library.Window`; `NULL` is `none`.  What `malloc` and `realloc` answer
is not the buffer's business, so each operation takes the answers as a `Libc`.

All size fields are `uint32_t`: sums and products wrap.
-/

namespace Axon

open Library

/-- The fields of `buffer_t`. -/
structure BufferT where
  buf : Option (ℕ → UInt8)
  /-- Shrink threshold; `0` turns shrinking off. -/
  upperLimit : ℕ
  /-- Capacity at the beginning, and the one a shrink goes back to. -/
  initAlloc : ℕ
  len : ℕ
  allocSize : ℕ
  start : ℕ
  end_ : ℕ

namespace BufferT

/-- `buffer_t::buffer_t()`. -/
def empty : BufferT :=
  { buf := none, upperLimit := 0, initAlloc := 0, len := 0, allocSize := 0, start := 0, end_ := 0 }

/-- `buffer_t::alloc`. -/
def alloc (os : Libc) (b : BufferT) (n : ℕ) : Except Fault BufferT := do
  let p := os.malloc n
  rtAssert "buf_ != NULL" (p.isSome)
  pure { b with buf := p, start := 0, len := 0, end_ := 0, allocSize := n }

/-- `buffer_t::buffer_t(uint32_t n)`. -/
def new (os : Libc) (n : ℕ) : Except Fault BufferT := do
  let b ← alloc os empty n
  pure { b with upperLimit := u32 (n * 4), initAlloc := n }

/-- `buffer_t::shrink`: the window is copied to the front of a block of the initial size.  The
positions are the caller's to move. -/
def shrink (os : Libc) (b : BufferT) : Except Fault BufferT := do
  let newp := os.malloc b.initAlloc
  rtAssert "newp != NULL" (newp.isSome)
  pure { b with
    buf := newp.map fun p => match b.buf with
      | some m => blit p 0 (window m b.start b.len)
      | none => p
    allocSize := b.initAlloc }

/-- `buffer_t::shift`: move the window to the front of the storage. -/
def shift (os : Libc) (b : BufferT) : Except Fault BufferT :=
  match b.buf with
  | none => .ok b
  | some m => do
      let b ← (if 0 < b.upperLimit ∧ b.upperLimit < b.allocSize ∧ b.len < b.initAlloc then
          shrink os b
        else pure { b with buf := some (blit m 0 (window m b.start b.len)) } : Except Fault BufferT)
      pure { b with start := 0, end_ := b.len }

/-- `buffer_t::pop`.  Popping all of it returns the length before, otherwise the length after. -/
def pop (os : Libc) (b : BufferT) (n : ℕ) : Except Fault (BufferT × ℕ) :=
  if b.len ≤ n then do
    let b' := { b with start := 0, end_ := 0, len := 0 }
    let b'' ← (if 0 < b.upperLimit ∧ b.upperLimit < b.allocSize then shrink os b' else pure b' :
      Except Fault BufferT)
    pure (b'', b.len)
  else
    let b' := { b with start := u32 (b.start + n), len := b.len - n }
    pure (b', b'.len)

/-- `buffer_t::data`. -/
def data (b : BufferT) : Option (ℕ → UInt8) :=
  if b.len = 0 then none else b.buf.map fun m i => m (b.start + i)

/-- `buffer_t::prepare`: make room for `size` bytes behind the window. -/
def prepare (os : Libc) (b : BufferT) (size : ℕ) : Except Fault (BufferT × ℕ) := do
  let b ← (if b.allocSize < u32 (b.end_ + size) then shift os b else pure b :
    Except Fault BufferT)
  let need := u32 (b.end_ + size)
  if b.allocSize < need then
    let need := if need - b.allocSize < 128 then u32 (b.allocSize + 128) else need
    let newp := os.reallocBlock b.buf b.allocSize need
    rtAssert "newp != NULL" (newp.isSome)
    pure ({ b with buf := newp, allocSize := need }, need)
  else pure (b, b.allocSize)

/-- What the client does between `prepare` and `flush_push`: copy bytes to `tail()`. -/
def writeTail (b : BufferT) (bytes : List UInt8) : BufferT :=
  { b with buf := b.buf.map fun m => blit m b.end_ bytes }

/-- `buffer_t::flush_push`. -/
def flushPush (b : BufferT) (actualSize : ℕ) : Except Fault BufferT := do
  rtAssert "end_ + actual_size <= alloc_size_" (u32 (b.end_ + actualSize) ≤ b.allocSize)
  pure { b with len := u32 (b.len + actualSize), end_ := u32 (b.end_ + actualSize) }

/-- `buffer_t::push(const char*, uint32_t)`. -/
def push (os : Libc) (b : BufferT) (src : List UInt8) : Except Fault (BufferT × ℕ) := do
  let (b, _) ← prepare os b src.length
  rtAssert "buf_ != NULL" (b.buf.isSome)
  let b := b.writeTail src
  let b := { b with len := u32 (b.len + src.length), end_ := u32 (b.end_ + src.length) }
  pure (b, b.len)

/-- The bytes of the window `[start_, end_)`. -/
def bytes (b : BufferT) : List UInt8 :=
  match b.buf with
  | none => []
  | some m => window m b.start b.len

/-- `buffer_t::push(buffer_t&)` of another buffer. -/
def pushBuffer (os : Libc) (b rhs : BufferT) : Except Fault (BufferT × ℕ) := push os b rhs.bytes

/-- `buffer_t::buffer_t(buffer_t&)`.  The shrink limit and the initial size are set only after the
contents have been copied; until then they hold whatever the memory of the object held, here
`upper` and `init`. -/
def copy (os : Libc) (upper init : ℕ) (rhs : BufferT) : Except Fault BufferT := do
  let b ← alloc os { empty with upperLimit := upper, initAlloc := init } rhs.allocSize
  let (b, _) ← pushBuffer os b rhs
  pure { b with upperLimit := u32 (b.allocSize * 4), initAlloc := b.allocSize }

/-- `buffer_t::clear`. -/
def clear (b : BufferT) : BufferT := { b with start := 0, end_ := 0, len := 0 }

/-- `buffer_t::reset`. -/
def reset (os : Libc) (b : BufferT) (size : ℕ) : Except Fault BufferT := do
  let b ← (if size ≠ b.allocSize then do
      let newp := os.reallocBlock b.buf b.allocSize size
      rtAssert "newp != NULL" (newp.isSome)
      pure { b with allocSize := size, buf := newp }
    else if size = 0 then pure { b with allocSize := 0, buf := none }
    else pure b : Except Fault BufferT)
  pure b.clear

/-- `buffer_t::set_shrink_limit`. -/
def setShrinkLimit (b : BufferT) (n : ℕ) : BufferT := { b with upperLimit := n }

end BufferT

end Axon
