import Axon.Core.BufferRefinement

/-!
# Room for every request

`prepare(size)` promises room for `size` bytes behind the window.  It decides with three sums of
`uint32_t`, and each of them can wrap.

* **`BufferT.Prepared`** : the buffers after any sequence of operations in which no sum wraps.
* **`BufferT.room_of_not_preparable`** : where a sum wraps, `prepare` returns without room.
* **`BufferT.room_iff`** : exactly when `prepare` leaves the room it was asked for.
-/

namespace Axon

open Library

namespace BufferT

variable {os : Libc} {b b' : BufferT} {q : List UInt8} {size r : ℕ}

/-- `end_ + size` wraps: the wrapped sum looks as if there were room already. -/
lemma prepare_of_wrap (hr : Refines b q) (hsize : size < 2 ^ 32) (hwrap : 2 ^ 32 ≤ b.end_ + size)
    (h : prepare os b size = .ok (b', r)) : b' = b := by
  have hend := hr.end_le
  have halloc := hr.alloc_lt
  have hsum : u32 (b.end_ + size) ≤ b.allocSize := by
    rw [u32]
    omega
  obtain ⟨b₁, hfirst, hsecond⟩ := prepare_cases h
  obtain rfl : b₁ = b := (hfirst.resolve_left fun hshort => Nat.not_lt_of_le hsum hshort.1).2
  exact (hsecond.resolve_right fun hshort => Nat.not_lt_of_le hsum hshort.1).2

/-- The 128 bytes wrap: the storage is made smaller than it was. -/
lemma prepare_of_grow (hr : Refines b q) (hsum : b.end_ + size < 2 ^ 32)
    (hshort : b.allocSize < b.end_ + size) (hbig : 2 ^ 32 - 128 ≤ b.shiftedSize)
    (hneed : b.shiftedSize < b.len + size) (h : prepare os b size = .ok (b', r)) :
    b'.end_ = b.len ∧ b'.allocSize < 128 := by
  have hpos := hr.start_add_len
  obtain ⟨b₁, hfirst, hsecond⟩ := prepare_cases h
  rw [u32_of_lt hsum] at hfirst
  have hshift := (hfirst.resolve_right fun hroom => Nat.not_le_of_lt hshort hroom.1).2
  obtain ⟨halloc, hend⟩ := shift_sizes hr hshift
  have hlt := (shift_refines hr hshift).1.alloc_lt
  have hu : u32 (b₁.end_ + size) = b.len + size := by
    rw [hend, u32_of_lt (by omega)]
  rw [hu, halloc] at hsecond
  obtain ⟨-, m, -, rfl⟩ := hsecond.resolve_left fun hroom => Nat.not_le_of_lt hneed hroom.1
  refine ⟨hend, ?_⟩
  show b₁.grownSize size < 128
  rw [grownSize, hu, halloc, if_pos (by omega), u32]
  omega

/-- **Where a sum wraps**, `prepare` returns and there is no room. -/
lemma room_of_not_preparable (hr : Refines b q) (hsize : size < 2 ^ 32)
    (hbad : ¬ b.Preparable size) (h : prepare os b size = .ok (b', r)) :
    b'.allocSize < b'.end_ + size := by
  by_cases hsum : b.end_ + size < 2 ^ 32
  · have hgrow : b.allocSize < b.end_ + size ∧ 2 ^ 32 - 128 ≤ b.shiftedSize ∧
        b.shiftedSize < b.len + size := by
      by_contra hno
      exact hbad ⟨hsum, hno⟩
    obtain ⟨hshort, hbig, hneed⟩ := hgrow
    obtain ⟨hend, hsmall⟩ := prepare_of_grow hr hsum hshort hbig hneed h
    omega
  · have halloc := hr.alloc_lt
    obtain rfl := prepare_of_wrap hr hsize (Nat.le_of_not_lt hsum) h
    omega

/-! ## Every sequence of operations -/

/-- The buffers after one of the constructors and any sequence of operations that returned, where no
sum of a `prepare` wrapped.  What the memory of a copy held before its construction is
arbitrary. -/
inductive Prepared : BufferT → Prop where
  | empty : Prepared BufferT.empty
  | new {os : Libc} {n : ℕ} {b : BufferT} (hn : n < 2 ^ 32) (h : BufferT.new os n = .ok b) :
      Prepared b
  | copy {os : Libc} {upper init : ℕ} {rhs b : BufferT} (hinit : init < 2 ^ 32)
      (hr : Prepared rhs) (h : BufferT.copy os upper init rhs = .ok b) : Prepared b
  | setShrinkLimit {b : BufferT} (n : ℕ) (hr : Prepared b) : Prepared (b.setShrinkLimit n)
  | prepare {os : Libc} {b b' : BufferT} {size r : ℕ} (hr : Prepared b)
      (hok : b.Preparable size) (h : b.prepare os size = .ok (b', r)) : Prepared b'
  | push {os : Libc} {b b' : BufferT} {src : List UInt8} {r : ℕ} (hr : Prepared b)
      (hok : b.Preparable src.length) (h : b.push os src = .ok (b', r)) : Prepared b'
  | pushBuffer {os : Libc} {b rhs b' : BufferT} {r : ℕ} (hr : Prepared b) (hrhs : Prepared rhs)
      (hok : b.Preparable rhs.len) (h : b.pushBuffer os rhs = .ok (b', r)) : Prepared b'
  /-- `prepare(size)`, a write of `w` at `tail()`, and `flush_push(k)` of the first `k` bytes. -/
  | fill {os : Libc} {b b₁ b' : BufferT} {w : List UInt8} {size k r : ℕ} (hr : Prepared b)
      (hok : b.Preparable size) (hw : w.length ≤ size) (hk : k ≤ w.length)
      (h₁ : b.prepare os size = .ok (b₁, r)) (h : (b₁.writeTail w).flushPush k = .ok b') :
      Prepared b'
  | pop {os : Libc} {b b' : BufferT} {n r : ℕ} (hr : Prepared b)
      (h : b.pop os n = .ok (b', r)) : Prepared b'
  | shift {os : Libc} {b b' : BufferT} (hr : Prepared b) (h : b.shift os = .ok b') : Prepared b'
  | clear {b : BufferT} (hr : Prepared b) : Prepared b.clear
  | reset {os : Libc} {b b' : BufferT} {size : ℕ} (hr : Prepared b) (hsize : size < 2 ^ 32)
      (h : b.reset os size = .ok b') : Prepared b'

/-- **Every such buffer** holds some queue. -/
lemma Prepared.refines (h : Prepared b) : ∃ q, Refines b q := by
  induction h with
  | empty => exact ⟨_, empty_refines⟩
  | new hn h => exact ⟨_, new_refines hn h⟩
  | copy hinit _ h ih =>
      obtain ⟨q, hq⟩ := ih
      exact ⟨q, copy_refines hinit hq h⟩
  | setShrinkLimit n _ ih =>
      obtain ⟨q, hq⟩ := ih
      exact ⟨q, setShrinkLimit_refines hq n⟩
  | prepare _ hok h ih =>
      obtain ⟨q, hq⟩ := ih
      exact ⟨q, (prepare_room hq hok h).1⟩
  | push _ hok h ih =>
      obtain ⟨q, hq⟩ := ih
      exact ⟨_, push_room hq hok h⟩
  | pushBuffer _ _ hok h ih ih' =>
      obtain ⟨q, hq⟩ := ih
      obtain ⟨q', hq'⟩ := ih'
      rw [BufferT.pushBuffer, hq'.bytes_eq] at h
      rw [← hq'.length_eq] at hok
      exact ⟨_, push_room hq hok h⟩
  | fill _ hok hw hk h₁ h ih =>
      obtain ⟨q, hq⟩ := ih
      obtain ⟨hr₁, hroom, -⟩ := prepare_room hq hok h₁
      refine ⟨_, flushPush_refines hr₁ hk (by omega) (fun hnull => ?_) h⟩
      have hzero := hr₁.null hnull
      omega
  | pop _ h ih =>
      obtain ⟨q, hq⟩ := ih
      exact ⟨_, pop_refines hq h⟩
  | shift _ h ih =>
      obtain ⟨q, hq⟩ := ih
      exact ⟨q, (shift_refines hq h).1⟩
  | clear _ ih =>
      obtain ⟨q, hq⟩ := ih
      exact ⟨_, clear_refines hq⟩
  | reset _ hsize h ih =>
      obtain ⟨q, hq⟩ := ih
      exact ⟨_, reset_refines hq hsize h⟩

/-- **`prepare` leaves the room it was asked for** exactly when neither `end_ + size` wraps, nor, in
a storage within 128 bytes of `2 ^ 32` that has to grow, the 128 bytes it grows by at least. -/
theorem room_iff (h : Prepared b) (hsize : size < 2 ^ 32) :
    (∀ os b' r, b.prepare os size = .ok (b', r) → b'.end_ + size ≤ b'.allocSize) ↔
      b.Preparable size := by
  obtain ⟨q, hr⟩ := h.refines
  constructor
  · intro hall
    by_contra hbad
    obtain ⟨b', r, hprepare⟩ := prepare_returns zeroLibc_total b size
    have hshort := room_of_not_preparable hr hsize hbad hprepare
    exact Nat.not_le_of_lt hshort (hall zeroLibc b' r hprepare)
  · intro hok os b' r hprepare
    exact (prepare_room hr hok hprepare).2.1

/-- A full buffer of one byte makes room for 100 more. -/
theorem room_of_hundred : ∃ b b' : BufferT, Prepared b ∧ b.end_ = 1 ∧
    b.prepare zeroLibc 100 = .ok (b', 129) ∧ b'.end_ + 100 ≤ b'.allocSize := by
  have h₀ : Prepared _ := .new (n := 1) (by decide) (show BufferT.new zeroLibc 1 = .ok _ from rfl)
  have h₁ : Prepared _ :=
    .push h₀ (by decide) (show BufferT.push zeroLibc _ [7] = .ok (_, _) from rfl)
  exact ⟨_, _, h₁, rfl, rfl, (room_iff h₁ (by decide)).mpr (by decide) zeroLibc _ _ rfl⟩

/-- **A request of `2^32 - 1` bytes** behind one byte of data is answered without any room. -/
theorem room_missing : ∃ (b b' : BufferT) (r : ℕ), Prepared b ∧
    b.prepare zeroLibc (2 ^ 32 - 1) = .ok (b', r) ∧ b'.allocSize < b'.end_ + (2 ^ 32 - 1) := by
  have h₀ : Prepared _ :=
    .new (n := 16) (by decide) (show BufferT.new zeroLibc 16 = .ok _ from rfl)
  have h₁ : Prepared _ :=
    .push h₀ (by decide) (show BufferT.push zeroLibc _ [7] = .ok (_, _) from rfl)
  obtain ⟨q, hr⟩ := h₁.refines
  obtain ⟨b', r, hprepare⟩ := prepare_returns zeroLibc_total _ (2 ^ 32 - 1)
  exact ⟨_, b', r, h₁, hprepare, room_of_not_preparable hr (by decide) (by decide) hprepare⟩

end BufferT

end Axon
