import Axon.Core.Buffer

/-!
# `buffer_t` is a byte queue

`Refines b q` says that the window of the buffer `b` holds the queue `q` and that its positions are
in order.  Every operation keeps it, with the queue it should have: that is one lemma per operation,
and `Built.refines` runs them over every history.

The queue never sees how the storage moves.  `shift` and `shrink` both end with a copy of the window
at the front of a block (`shift_refines`), and `prepare` leaves the window where that put it.
-/

namespace Axon

open Library

namespace BufferT

/-- The window of `b` holds the queue `q`. -/
structure Refines (b : BufferT) (q : List UInt8) : Prop where
  start_add_len : b.start + b.len = b.end_
  end_le : b.end_ ≤ b.allocSize
  alloc_lt : b.allocSize < 2 ^ 32
  init_lt : b.initAlloc < 2 ^ 32
  /-- Without storage there is no capacity, hence no data. -/
  null : b.buf = none → b.allocSize = 0
  bytes_eq : b.bytes = q

namespace Refines

variable {b : BufferT} {q : List UInt8}

/-- Without storage the positions are all zero. -/
lemma len_eq_zero_of_null (h : Refines b q) (hb : b.buf = none) : b.len = 0 := by
  have h1 := h.null hb
  have h2 := h.start_add_len
  have h3 := h.end_le
  omega

lemma length_eq (h : Refines b q) : q.length = b.len := by
  rw [← h.bytes_eq]
  cases hb : b.buf with
  | none => simp [bytes, hb, h.len_eq_zero_of_null hb]
  | some m => simp [bytes, hb]

/-- With storage, the queue is what the window shows. -/
lemma window_eq (h : Refines b q) {m : ℕ → UInt8} (hb : b.buf = some m) :
    window m b.start b.len = q := by
  rw [← h.bytes_eq, bytes, hb]

end Refines

/-- Rewriting the bookkeeping of a buffer without data gives the empty queue. -/
lemma refines_nil {b : BufferT} (hs : b.start = 0) (hl : b.len = 0) (he : b.end_ = 0)
    (ha : b.allocSize < 2 ^ 32) (hi : b.initAlloc < 2 ^ 32)
    (hn : b.buf = none → b.allocSize = 0) : Refines b [] where
  start_add_len := by omega
  end_le := by omega
  alloc_lt := ha
  init_lt := hi
  null := hn
  bytes_eq := by
    cases hb : b.buf with
    | none => simp [bytes, hb]
    | some m => simp [bytes, hb, hl]

/-! ## Construction -/

lemma empty_refines : Refines empty [] :=
  refines_nil rfl rfl rfl (by simp [empty]) (by simp [empty]) (fun _ => rfl)

/-- What `alloc` leaves behind when it returns. -/
lemma alloc_eq_ok {os : Libc} {b b' : BufferT} {n : ℕ} (h : alloc os b n = .ok b') :
    ∃ m, b' = { b with buf := some m, start := 0, len := 0, end_ := 0, allocSize := n } := by
  obtain ⟨u, hu, h⟩ := bind_eq_ok h
  obtain ⟨m, hm⟩ := Option.isSome_iff_exists.mp (rtAssert_eq_ok hu)
  rw [hm] at h
  exact ⟨m, (Except.ok.inj h).symm⟩

lemma new_refines {os : Libc} {n : ℕ} {b : BufferT} (hn : n < 2 ^ 32) (h : new os n = .ok b) :
    Refines b [] := by
  obtain ⟨b₁, h₁, h⟩ := bind_eq_ok h
  obtain ⟨m, rfl⟩ := alloc_eq_ok h₁
  obtain rfl := Except.ok.inj h
  exact refines_nil rfl rfl rfl hn hn (by simp)

/-! ## Moving the window -/

/-- When `shrink` returns, the window sits at the front of a block of the initial size. -/
lemma shrink_eq_ok {os : Libc} {b b' : BufferT} (h : shrink os b = .ok b') :
    ∃ m, b' = { b with buf := some m, allocSize := b.initAlloc } ∧
      (∀ m₀, b.buf = some m₀ → window m 0 b.len = window m₀ b.start b.len) := by
  obtain ⟨u, hu, h⟩ := bind_eq_ok h
  obtain ⟨p, hp⟩ := Option.isSome_iff_exists.mp (rtAssert_eq_ok hu)
  rw [hp] at h
  obtain rfl := Except.ok.inj h
  cases hb : b.buf with
  | none => exact ⟨p, rfl, by simp⟩
  | some m₀ =>
      refine ⟨blit p 0 (window m₀ b.start b.len), rfl, ?_⟩
      intro m₁ hm₁
      obtain rfl := Option.some.inj hm₁
      have h := window_blit_self p 0 (window m₀ b.start b.len)
      rwa [length_window] at h

/-- `shift` keeps the queue, moves the window to the front and never moves its end back. -/
lemma shift_refines {os : Libc} {b b' : BufferT} {q : List UInt8} (hr : Refines b q)
    (h : shift os b = .ok b') :
    Refines b' q ∧ b'.start = 0 ∧ b'.end_ ≤ b.end_ := by
  have hpos := hr.start_add_len
  rw [shift] at h
  cases hb : b.buf with
  | none =>
      rw [hb] at h
      obtain rfl := Except.ok.inj h
      have h0 := hr.null hb
      have hle := hr.end_le
      exact ⟨hr, by omega, le_refl _⟩
  | some m =>
      rw [hb] at h
      obtain ⟨b₁, h₁, h⟩ := bind_eq_ok h
      obtain rfl := Except.ok.inj h
      have hq := hr.window_eq hb
      split_ifs at h₁ with hc
      · -- the summit has passed: the window moves into a block of the initial size
        obtain ⟨m₁, rfl, hw⟩ := shrink_eq_ok h₁
        refine ⟨⟨by simp, ?_, hr.init_lt, hr.init_lt, by simp, ?_⟩, rfl, ?_⟩
        · show b.len ≤ b.initAlloc
          omega
        · show window m₁ 0 b.len = q
          rw [hw m hb, hq]
        · show b.len ≤ b.end_
          omega
      · obtain rfl := Except.ok.inj h₁
        have hle := hr.end_le
        refine ⟨⟨by simp, ?_, hr.alloc_lt, hr.init_lt, by simp, ?_⟩, rfl, ?_⟩
        · show b.len ≤ b.allocSize
          omega
        · show window (blit m 0 (window m b.start b.len)) 0 b.len = q
          have hw := window_blit_self m 0 (window m b.start b.len)
          rw [length_window] at hw
          rw [hw, hq]
        · show b.len ≤ b.end_
          omega

/-- `pop(n)` drops the first `n` bytes, all of them when there are not more. -/
lemma pop_refines {os : Libc} {b b' : BufferT} {q : List UInt8} {n r : ℕ} (hr : Refines b q)
    (h : pop os b n = .ok (b', r)) : Refines b' (q.drop n) := by
  have hlen := hr.length_eq
  rw [pop] at h
  by_cases hn : b.len ≤ n
  · rw [if_pos hn] at h
    rw [List.drop_of_length_le (by omega)]
    obtain ⟨b₁, h₁, h⟩ := bind_eq_ok h
    obtain ⟨rfl, rfl⟩ := Prod.mk.inj (Except.ok.inj h)
    split_ifs at h₁ with hc
    · obtain ⟨m₁, rfl, -⟩ := shrink_eq_ok h₁
      exact refines_nil rfl rfl rfl hr.init_lt hr.init_lt (by simp)
    · obtain rfl := Except.ok.inj h₁
      exact refines_nil rfl rfl rfl hr.alloc_lt hr.init_lt hr.null
  · rw [if_neg hn] at h
    obtain ⟨rfl, rfl⟩ := Prod.mk.inj (Except.ok.inj h)
    have hpos := hr.start_add_len
    have hle := hr.end_le
    have hlt := hr.alloc_lt
    have hst : u32 (b.start + n) = b.start + n := u32_of_lt (by omega)
    refine ⟨?_, hle, hlt, hr.init_lt, hr.null, ?_⟩
    · show u32 (b.start + n) + (b.len - n) = b.end_
      omega
    · cases hb : b.buf with
      | none =>
          have := hr.len_eq_zero_of_null hb
          omega
      | some m =>
          show window m (u32 (b.start + n)) (b.len - n) = q.drop n
          rw [← hr.window_eq hb, drop_window m b.start (by omega), hst]

/-! ## Growing -/

/-- Storage that `realloc` returned shows the same window, as long as the window fits. -/
lemma window_reallocBlock {os : Libc} {m m' : ℕ → UInt8} {old n s k : ℕ}
    (h : os.reallocBlock (some m) old n = some m') (hold : s + k ≤ old) (hn : s + k ≤ n) :
    window m' s k = window m s k := by
  simp only [Libc.reallocBlock, Option.map_eq_some_iff] at h
  obtain ⟨junk, -, rfl⟩ := h
  refine window_congr fun i hi => ?_
  show (if s + i < min old n then m (s + i) else junk (s + i)) = m (s + i)
  rw [if_pos (by omega)]

/-- Enlarging the storage keeps the queue. -/
lemma realloc_refines {os : Libc} {b : BufferT} {q : List UInt8} {n : ℕ} {m' : ℕ → UInt8}
    (hr : Refines b q) (hn : b.allocSize ≤ n) (hlt : n < 2 ^ 32)
    (h : os.reallocBlock b.buf b.allocSize n = some m') :
    Refines { b with buf := some m', allocSize := n } q := by
  refine ⟨hr.start_add_len, le_trans hr.end_le hn, hlt, hr.init_lt, by simp, ?_⟩
  show window m' b.start b.len = q
  have hpos := hr.start_add_len
  have hle := hr.end_le
  cases hb : b.buf with
  | none =>
      have hl := hr.len_eq_zero_of_null hb
      rw [hl, window_zero, ← List.length_eq_zero_iff.mp (hr.length_eq.trans hl)]
  | some m =>
      rw [hb] at h
      rw [window_reallocBlock h (by omega) (by omega), hr.window_eq hb]

/-- The capacity `shift` leaves. -/
def shiftedSize (b : BufferT) : ℕ :=
  if 0 < b.upperLimit ∧ b.upperLimit < b.allocSize ∧ b.len < b.initAlloc then b.initAlloc
  else b.allocSize

/-- The capacity `prepare` asks for when there is no room. -/
def grownSize (b : BufferT) (size : ℕ) : ℕ :=
  if u32 (b.end_ + size) - b.allocSize < 128 then u32 (b.allocSize + 128) else u32 (b.end_ + size)

/-- The sums of `prepare(size)` do not wrap: neither `end_ + size` nor, where the storage has to
grow after a shift, the 128 bytes it grows by at least. -/
def Preparable (b : BufferT) (size : ℕ) : Prop :=
  b.end_ + size < 2 ^ 32 ∧ ¬ (b.allocSize < b.end_ + size ∧ 2 ^ 32 - 128 ≤ b.shiftedSize ∧
    b.shiftedSize < b.len + size)

instance (b : BufferT) (size : ℕ) : Decidable (b.Preparable size) :=
  inferInstanceAs (Decidable (_ ∧ ¬ (_ ∧ _ ∧ _)))

lemma shift_sizes {os : Libc} {b b' : BufferT} {q : List UInt8} (hr : Refines b q)
    (h : shift os b = .ok b') : b'.allocSize = b.shiftedSize ∧ b'.end_ = b.len := by
  rw [shift] at h
  cases hb : b.buf with
  | none =>
      rw [hb] at h
      obtain rfl := Except.ok.inj h
      have hpos := hr.start_add_len
      have hle := hr.end_le
      have hzero := hr.null hb
      refine ⟨(if_neg ?_).symm, by omega⟩
      omega
  | some m =>
      rw [hb] at h
      obtain ⟨b₁, h₁, h⟩ := bind_eq_ok h
      obtain rfl := Except.ok.inj h
      split_ifs at h₁ with hc
      · obtain ⟨m₁, rfl, -⟩ := shrink_eq_ok h₁
        exact ⟨(if_pos hc).symm, rfl⟩
      · obtain rfl := Except.ok.inj h₁
        exact ⟨(if_neg hc).symm, rfl⟩

/-- **What `prepare` has done** when it returns: a shift, if the wrapped sum asked for it, and then
a new block, if it still does. -/
lemma prepare_cases {os : Libc} {b b' : BufferT} {size r : ℕ}
    (h : prepare os b size = .ok (b', r)) :
    ∃ b₁, (b.allocSize < u32 (b.end_ + size) ∧ shift os b = .ok b₁ ∨
        u32 (b.end_ + size) ≤ b.allocSize ∧ b₁ = b) ∧
      (u32 (b₁.end_ + size) ≤ b₁.allocSize ∧ b' = b₁ ∨
        b₁.allocSize < u32 (b₁.end_ + size) ∧
          ∃ m, os.reallocBlock b₁.buf b₁.allocSize (b₁.grownSize size) = some m ∧
            b' = { b₁ with buf := some m, allocSize := b₁.grownSize size }) := by
  obtain ⟨b₁, h₁, h⟩ := bind_eq_ok h
  refine ⟨b₁, ?_, ?_⟩
  · split_ifs at h₁ with hc
    · exact .inl ⟨hc, h₁⟩
    · exact .inr ⟨Nat.le_of_not_lt hc, (Except.ok.inj h₁).symm⟩
  · by_cases hroom : b₁.allocSize < u32 (b₁.end_ + size)
    · simp only [if_pos hroom] at h
      obtain ⟨u, ha, h⟩ := bind_eq_ok h
      obtain ⟨m, hm⟩ := Option.isSome_iff_exists.mp (rtAssert_eq_ok ha)
      obtain ⟨rfl, rfl⟩ := Prod.mk.inj (Except.ok.inj h)
      refine .inr ⟨hroom, m, hm, ?_⟩
      rw [hm]
      rfl
    · simp only [if_neg hroom] at h
      obtain ⟨rfl, rfl⟩ := Prod.mk.inj (Except.ok.inj h)
      exact .inl ⟨Nat.le_of_not_lt hroom, rfl⟩

/-- `prepare(size)` keeps the queue and leaves room for `size` bytes behind the window, where its
sums do not wrap. -/
lemma prepare_room {os : Libc} {b b' : BufferT} {q : List UInt8} {size r : ℕ} (hr : Refines b q)
    (hok : b.Preparable size) (h : prepare os b size = .ok (b', r)) :
    Refines b' q ∧ b'.end_ + size ≤ b'.allocSize ∧ b'.end_ ≤ b.end_ := by
  obtain ⟨hsum, hgrow⟩ := hok
  obtain ⟨b₁, hfirst, hsecond⟩ := prepare_cases h
  rw [u32_of_lt hsum] at hfirst
  have hb₁ : Refines b₁ q ∧ b₁.end_ ≤ b.end_ ∧
      (b₁.allocSize < b₁.end_ + size → b₁.allocSize < 2 ^ 32 - 128) := by
    rcases hfirst with ⟨hshort, hshift⟩ | ⟨hroom, rfl⟩
    · obtain ⟨hr₁, -, hle⟩ := shift_refines hr hshift
      obtain ⟨halloc, hend⟩ := shift_sizes hr hshift
      refine ⟨hr₁, hle, fun hlt => ?_⟩
      rw [halloc, hend] at hlt
      rw [halloc]
      exact Nat.lt_of_not_le fun hbig => hgrow ⟨hshort, hbig, hlt⟩
    · exact ⟨hr, le_refl _, fun hlt => absurd hroom (Nat.not_le_of_lt hlt)⟩
  obtain ⟨hr₁, hend, hsmall⟩ := hb₁
  rw [u32_of_lt (show b₁.end_ + size < 2 ^ 32 by omega)] at hsecond
  rcases hsecond with ⟨hroom, rfl⟩ | ⟨hshort, m, hm, rfl⟩
  · exact ⟨hr₁, hroom, hend⟩
  · -- the new capacity: what is missing, but at least 128 bytes more than before
    have hlt := hsmall hshort
    have hbound : b₁.end_ + size ≤ b₁.grownSize size ∧ b₁.grownSize size < 2 ^ 32 := by
      rw [grownSize, u32_of_lt (show b₁.end_ + size < 2 ^ 32 by omega),
        u32_of_lt (show b₁.allocSize + 128 < 2 ^ 32 by omega)]
      split_ifs <;> omega
    exact ⟨realloc_refines hr₁ (by omega) hbound.2 hm, hbound.1, hend⟩

/-- Sums that stay 128 away from `2 ^ 32` do not wrap. -/
lemma preparable_of_lt {b : BufferT} {q : List UInt8} {size : ℕ} (hr : Refines b q)
    (hsum : b.end_ + size < 2 ^ 32 - 128) : b.Preparable size := by
  have hpos := hr.start_add_len
  exact ⟨by omega, fun hbad => by omega⟩

lemma prepare_refines {os : Libc} {b b' : BufferT} {q : List UInt8} {size r : ℕ}
    (hr : Refines b q) (hsum : b.end_ + size < 2 ^ 32 - 128)
    (h : prepare os b size = .ok (b', r)) :
    Refines b' q ∧ b'.end_ + size ≤ b'.allocSize ∧ b'.end_ ≤ b.end_ :=
  prepare_room hr (preparable_of_lt hr hsum) h

/-! ## Writing behind the window -/

/-- Bytes written at `tail()` and then accounted for extend the queue. -/
lemma extend_refines {b : BufferT} {q w : List UInt8} {k : ℕ} (hr : Refines b q)
    (hk : k ≤ w.length) (hroom : b.end_ + k ≤ b.allocSize) (hbuf : b.buf.isSome) :
    Refines { b.writeTail w with len := b.len + k, end_ := b.end_ + k } (q ++ w.take k) := by
  obtain ⟨m, hm⟩ := Option.isSome_iff_exists.mp hbuf
  have hpos := hr.start_add_len
  refine ⟨?_, hroom, hr.alloc_lt, hr.init_lt, by simp [writeTail, hm], ?_⟩
  · show b.start + (b.len + k) = b.end_ + k
    omega
  · simp only [bytes, writeTail, hm, Option.map_some]
    rw [← hpos, window_append, window_blit_of_le m w (le_refl _), hr.window_eq hm]
    congr 1
    rw [← take_window _ _ hk, window_blit_self]

lemma flushPush_refines {b b' : BufferT} {q w : List UInt8} {k : ℕ} (hr : Refines b q)
    (hk : k ≤ w.length) (hroom : b.end_ + k ≤ b.allocSize)
    (hbuf : b.buf = none → k = 0)
    (h : flushPush (b.writeTail w) k = .ok b') : Refines b' (q ++ w.take k) := by
  have hlt := hr.alloc_lt
  have hpos := hr.start_add_len
  obtain ⟨u, hu, h⟩ := bind_eq_ok h
  obtain rfl := Except.ok.inj h
  have he : u32 (b.end_ + k) = b.end_ + k := u32_of_lt (by omega)
  have hl : u32 (b.len + k) = b.len + k := u32_of_lt (by omega)
  show Refines { b.writeTail w with len := u32 (b.len + k), end_ := u32 (b.end_ + k) } _
  rw [he, hl]
  cases hb : b.buf with
  | none =>
      obtain rfl := hbuf hb
      have hw : b.writeTail w = b := by
        cases b
        simp_all [writeTail]
      rw [hw, List.take_zero, List.append_nil]
      exact hr
  | some m => exact extend_refines hr hk hroom (by rw [hb]; rfl)

lemma flushPush_end_le {b b' : BufferT} {k : ℕ} (h : flushPush b k = .ok b') :
    b'.end_ ≤ b.end_ + k := by
  obtain ⟨u, -, h⟩ := bind_eq_ok h
  obtain rfl := Except.ok.inj h
  exact Nat.mod_le _ _

/-- `push` appends. -/
lemma push_room {os : Libc} {b b' : BufferT} {q src : List UInt8} {r : ℕ} (hr : Refines b q)
    (hok : b.Preparable src.length) (h : push os b src = .ok (b', r)) :
    Refines b' (q ++ src) := by
  obtain ⟨⟨b₁, r₁⟩, h₁, h⟩ := bind_eq_ok h
  obtain ⟨hr₁, hroom, hend⟩ := prepare_room hr hok h₁
  obtain ⟨u, hu, h⟩ := bind_eq_ok h
  obtain ⟨rfl, rfl⟩ := Prod.mk.inj (Except.ok.inj h)
  have hlt := hr₁.alloc_lt
  have hpos := hr₁.start_add_len
  have he : u32 (b₁.end_ + src.length) = b₁.end_ + src.length := u32_of_lt (by omega)
  have hl : u32 (b₁.len + src.length) = b₁.len + src.length := u32_of_lt (by omega)
  have hx := extend_refines (w := src) hr₁ (le_refl _) hroom (rtAssert_eq_ok hu)
  rw [List.take_length] at hx
  show Refines { b₁.writeTail src with
    len := u32 (b₁.len + src.length), end_ := u32 (b₁.end_ + src.length) } _
  rwa [he, hl]

lemma push_refines {os : Libc} {b b' : BufferT} {q src : List UInt8} {r : ℕ} (hr : Refines b q)
    (hsum : b.end_ + src.length < 2 ^ 32 - 128) (h : push os b src = .ok (b', r)) :
    Refines b' (q ++ src) :=
  push_room hr (preparable_of_lt hr hsum) h

/-! ## Copy, reset, clear -/

/-- The copy constructor.  The limits the object holds before they are set may be anything: the
pushed window does not depend on them. -/
lemma copy_refines {os : Libc} {rhs b : BufferT} {q : List UInt8} {upper init : ℕ}
    (hinit : init < 2 ^ 32) (hr : Refines rhs q) (h : copy os upper init rhs = .ok b) :
    Refines b q := by
  obtain ⟨b₁, h₁, h⟩ := bind_eq_ok h
  obtain ⟨m, rfl⟩ := alloc_eq_ok h₁
  obtain ⟨⟨b₂, r₂⟩, h₂, h⟩ := bind_eq_ok h
  obtain rfl := Except.ok.inj h
  rw [pushBuffer, hr.bytes_eq] at h₂
  have hlen := hr.length_eq
  have hpos := hr.start_add_len
  have hle := hr.end_le
  have halloc := hr.alloc_lt
  have hr₂ : Refines b₂ ([] ++ q) := by
    -- the new storage has the capacity of the old one, so the data fits without a shift
    refine push_room ?_ ⟨?_, ?_⟩ h₂
    · exact refines_nil rfl rfl rfl hr.alloc_lt hinit (by simp)
    · show 0 + q.length < 2 ^ 32
      omega
    · rintro ⟨hshort, -⟩
      have hshort : rhs.allocSize < 0 + q.length := hshort
      omega
  exact ⟨hr₂.start_add_len, hr₂.end_le, hr₂.alloc_lt, hr₂.alloc_lt, hr₂.null, hr₂.bytes_eq⟩

lemma clear_refines {b : BufferT} {q : List UInt8} (hr : Refines b q) : Refines b.clear [] :=
  refines_nil rfl rfl rfl hr.alloc_lt hr.init_lt hr.null

lemma reset_refines {os : Libc} {b b' : BufferT} {q : List UInt8} {size : ℕ} (hr : Refines b q)
    (hsize : size < 2 ^ 32) (h : reset os b size = .ok b') : Refines b' [] := by
  obtain ⟨b₁, h₁, h⟩ := bind_eq_ok h
  obtain rfl := Except.ok.inj h
  split_ifs at h₁ with hc hz
  · obtain ⟨u, hu, h₁⟩ := bind_eq_ok h₁
    obtain rfl := Except.ok.inj h₁
    refine refines_nil rfl rfl rfl hsize hr.init_lt fun hn => ?_
    have hs : (os.reallocBlock b.buf b.allocSize size).isSome := rtAssert_eq_ok hu
    simp only [clear] at hn
    simp [hn] at hs
  · obtain rfl := Except.ok.inj h₁
    exact refines_nil rfl rfl rfl (Nat.two_pow_pos 32) hr.init_lt fun _ => rfl
  · obtain rfl := Except.ok.inj h₁
    exact clear_refines hr

lemma setShrinkLimit_refines {b : BufferT} {q : List UInt8} (hr : Refines b q) (n : ℕ) :
    Refines (b.setShrinkLimit n) q :=
  ⟨hr.start_add_len, hr.end_le, hr.alloc_lt, hr.init_lt, hr.null, hr.bytes_eq⟩

/-! ## With memory to spare

An operation of the buffer fails only for want of memory.  `Bounded` keeps track of how much it can
ask for.
-/

/-- The capacity is at most `A`, also after a shrink. -/
structure Bounded (b : BufferT) (A : ℕ) : Prop where
  alloc_le : b.allocSize ≤ A
  init_le : b.initAlloc ≤ A

lemma shrink_total {os : Libc} (ht : os.Total) (b : BufferT) : ∃ b', shrink os b = .ok b' := by
  rw [shrink, rtAssert_of_pos (ht.malloc _)]
  exact ⟨_, rfl⟩

lemma shift_total {os : Libc} (ht : os.Total) (b : BufferT) : ∃ b', shift os b = .ok b' := by
  rw [shift]
  cases b.buf with
  | none => exact ⟨_, rfl⟩
  | some m =>
      by_cases hc : 0 < b.upperLimit ∧ b.upperLimit < b.allocSize ∧ b.len < b.initAlloc
      · obtain ⟨b₁, h₁⟩ := shrink_total ht b
        simp only [if_pos hc, h₁]
        exact ⟨_, rfl⟩
      · simp only [if_neg hc]
        exact ⟨_, rfl⟩

lemma shift_bounded {os : Libc} {b b' : BufferT} {A : ℕ} (hb : Bounded b A)
    (h : shift os b = .ok b') : Bounded b' A ∧ b'.len = b.len := by
  rw [shift] at h
  cases hm : b.buf with
  | none =>
      rw [hm] at h
      obtain rfl := Except.ok.inj h
      exact ⟨hb, rfl⟩
  | some m =>
      rw [hm] at h
      obtain ⟨b₁, h₁, h⟩ := bind_eq_ok h
      obtain rfl := Except.ok.inj h
      split_ifs at h₁ with hc
      · obtain ⟨m₁, rfl, -⟩ := shrink_eq_ok h₁
        exact ⟨⟨hb.init_le, hb.init_le⟩, rfl⟩
      · obtain rfl := Except.ok.inj h₁
        exact ⟨⟨hb.alloc_le, hb.init_le⟩, rfl⟩

/-- With memory to spare `prepare` returns. -/
lemma prepare_returns {os : Libc} (ht : os.Total) (b : BufferT) (size : ℕ) :
    ∃ b' r, prepare os b size = .ok (b', r) := by
  have hfirst : ∃ b₁, (if b.allocSize < u32 (b.end_ + size) then shift os b else pure b)
      = (.ok b₁ : Except Fault BufferT) := by
    split_ifs
    · exact shift_total ht b
    · exact ⟨b, rfl⟩
  obtain ⟨b₁, h₁⟩ := hfirst
  have hsome : ∀ n, (os.reallocBlock b₁.buf b₁.allocSize n).isSome := by
    intro n
    simp [Libc.reallocBlock, ht.realloc n]
  rw [prepare, h₁]
  simp only [ok_bind]
  split_ifs
  · rw [rtAssert_of_pos (hsome _)]
    exact ⟨_, _, rfl⟩
  · rw [rtAssert_of_pos (hsome _)]
    exact ⟨_, _, rfl⟩
  · exact ⟨_, _, rfl⟩

/-- With memory to spare `prepare` returns, and the capacity stays bounded when the bound leaves
room for the data, the request and the 128 bytes it may add. -/
lemma prepare_total {os : Libc} (ht : os.Total) {b : BufferT} {q : List UInt8} {A size : ℕ}
    (hr : Refines b q) (hb : Bounded b A) (hA : b.len + size + 128 ≤ A)
    (hlt : A + size < 2 ^ 32 - 128) :
    ∃ b' r, prepare os b size = .ok (b', r) ∧ Refines b' q ∧ Bounded b' A ∧
      b'.end_ + size ≤ b'.allocSize := by
  have hend : b.end_ ≤ A := le_trans hr.end_le hb.alloc_le
  have hsum : b.end_ + size < 2 ^ 32 - 128 := by omega
  suffices h : ∃ b' r, prepare os b size = .ok (b', r) ∧ Bounded b' A by
    obtain ⟨b', r, h, hb'⟩ := h
    obtain ⟨hr', hroom, -⟩ := prepare_refines hr hsum h
    exact ⟨b', r, h, hr', hb', hroom⟩
  have hfirst : ∃ b₁, (if b.allocSize < u32 (b.end_ + size) then shift os b else pure b)
      = (.ok b₁ : Except Fault BufferT) ∧ Bounded b₁ A ∧ b₁.end_ ≤ b.end_ ∧
        (b₁.allocSize < b₁.end_ + size → b₁.end_ = b.len) := by
    split_ifs with hc
    · obtain ⟨b₁, h₁⟩ := shift_total ht b
      obtain ⟨hr₁, hs, hle⟩ := shift_refines hr h₁
      obtain ⟨hb₁, hl⟩ := shift_bounded hb h₁
      have := hr₁.start_add_len
      exact ⟨b₁, h₁, hb₁, hle, fun _ => by omega⟩
    · rw [u32_of_lt (by omega)] at hc
      exact ⟨b, rfl, hb, le_refl _, fun h => absurd h hc⟩
  obtain ⟨b₁, h₁, hb₁, hle₁, hlen₁⟩ := hfirst
  rw [prepare, h₁]
  simp only [ok_bind]
  rw [u32_of_lt (show b₁.end_ + size < 2 ^ 32 by omega)]
  by_cases hroom : b₁.allocSize < b₁.end_ + size
  · have hl := hlen₁ hroom
    have hsome : ∀ n, (os.reallocBlock b₁.buf b₁.allocSize n).isSome := by
      intro n
      simp [Libc.reallocBlock, ht.realloc n]
    simp only [if_pos hroom, rtAssert_of_pos (hsome _), ok_bind]
    refine ⟨_, _, rfl, ?_, hb₁.init_le⟩
    show (if b₁.end_ + size - b₁.allocSize < 128 then u32 (b₁.allocSize + 128)
      else b₁.end_ + size) ≤ A
    rw [u32_of_lt (by omega)]
    split_ifs <;> omega
  · simp only [if_neg hroom]
    exact ⟨_, _, rfl, hb₁⟩

/-- With memory to spare `pop` returns. -/
lemma pop_total {os : Libc} (ht : os.Total) {b : BufferT} {q : List UInt8} {A : ℕ} (n : ℕ)
    (hr : Refines b q) (hb : Bounded b A) :
    ∃ b' r, pop os b n = .ok (b', r) ∧ Refines b' (q.drop n) ∧ Bounded b' A := by
  suffices h : ∃ b' r, pop os b n = .ok (b', r) ∧ Bounded b' A by
    obtain ⟨b', r, h, hb'⟩ := h
    exact ⟨b', r, h, pop_refines hr h, hb'⟩
  rw [pop]
  by_cases hn : b.len ≤ n
  · simp only [if_pos hn]
    by_cases hc : 0 < b.upperLimit ∧ b.upperLimit < b.allocSize
    · obtain ⟨b₁, h₁⟩ := shrink_total ht { b with start := 0, end_ := 0, len := 0 }
      simp only [if_pos hc, h₁, ok_bind]
      obtain ⟨m, rfl, -⟩ := shrink_eq_ok h₁
      exact ⟨_, _, rfl, hb.init_le, hb.init_le⟩
    · simp only [if_neg hc]
      exact ⟨_, _, rfl, hb.alloc_le, hb.init_le⟩
  · simp only [if_neg hn]
    exact ⟨_, _, rfl, hb.alloc_le, hb.init_le⟩

/-- Bytes written into prepared room are accepted by `flush_push`. -/
lemma flushPush_total {b : BufferT} {q w : List UInt8} {A : ℕ} (hr : Refines b q)
    (hb : Bounded b A) (hroom : b.end_ + w.length ≤ b.allocSize) :
    ∃ b', flushPush (b.writeTail w) w.length = .ok b' ∧ Refines b' (q ++ w) ∧ Bounded b' A := by
  suffices h : ∃ b', flushPush (b.writeTail w) w.length = .ok b' ∧ Bounded b' A by
    obtain ⟨b', h, hb'⟩ := h
    have hx := flushPush_refines hr (le_refl _) hroom (fun hn => by have := hr.null hn; omega) h
    rw [List.take_length] at hx
    exact ⟨b', h, hx, hb'⟩
  have hlt := hr.alloc_lt
  have hu : u32 ((b.writeTail w).end_ + w.length) ≤ (b.writeTail w).allocSize := by
    rw [show (b.writeTail w).end_ = b.end_ from rfl, u32_of_lt (by omega)]
    exact hroom
  rw [flushPush, rtAssert_of_pos hu]
  exact ⟨_, rfl, hb.alloc_le, hb.init_le⟩

/-- The address `data()` of a non-empty buffer shows the queue. -/
lemma data_of_refines {b : BufferT} {q : List UInt8} (hr : Refines b q) (hq : q ≠ []) :
    ∃ p, b.data = some p ∧ window p 0 q.length = q := by
  have hlen := hr.length_eq
  have hpos : 0 < q.length := List.length_pos_of_ne_nil hq
  cases hb : b.buf with
  | none =>
      have := hr.len_eq_zero_of_null hb
      omega
  | some m =>
      refine ⟨fun i => m (b.start + i), ?_, ?_⟩
      · rw [data, if_neg (by omega), hb, Option.map_some]
      · rw [hlen]
        refine Eq.trans (window_congr fun i _ => ?_) (hr.window_eq hb)
        simp

/-! ## Every history -/

/-- `Built b q`: the buffer `b` has been built by one of the constructors and any sequence of
operations that returned, and `q` is what the same history does to a plain byte queue.  No sum
`end_ + size` comes within 128 of `2 ^ 32`. -/
inductive Built : BufferT → List UInt8 → Prop
  | empty : Built BufferT.empty []
  | new {os : Libc} {n : ℕ} {b : BufferT} (hn : n < 2 ^ 30) (h : BufferT.new os n = .ok b) :
      Built b []
  | copy {os : Libc} {upper init : ℕ} {rhs b : BufferT} {q : List UInt8} (hinit : init < 2 ^ 32)
      (hr : Built rhs q) (hsum : q.length < 2 ^ 32 - 128)
      (h : BufferT.copy os upper init rhs = .ok b) : Built b q
  | setShrinkLimit {b : BufferT} {q : List UInt8} (n : ℕ) (hr : Built b q) :
      Built (b.setShrinkLimit n) q
  | push {os : Libc} {b b' : BufferT} {q src : List UInt8} {r : ℕ} (hr : Built b q)
      (hsum : b.end_ + src.length < 2 ^ 32 - 128) (h : b.push os src = .ok (b', r)) :
      Built b' (q ++ src)
  | pushBuffer {os : Libc} {b rhs b' : BufferT} {q q' : List UInt8} {r : ℕ} (hr : Built b q)
      (hrhs : Built rhs q') (hsum : b.end_ + q'.length < 2 ^ 32 - 128)
      (h : b.pushBuffer os rhs = .ok (b', r)) : Built b' (q ++ q')
  /-- `prepare(size)`, a write of `w` at `tail()`, and `flush_push(k)` of the first `k` bytes. -/
  | fill {os : Libc} {b b₁ b' : BufferT} {q w : List UInt8} {size k r : ℕ} (hr : Built b q)
      (hsum : b.end_ + size < 2 ^ 32 - 128) (hw : w.length ≤ size) (hk : k ≤ w.length)
      (h₁ : b.prepare os size = .ok (b₁, r)) (h : (b₁.writeTail w).flushPush k = .ok b') :
      Built b' (q ++ w.take k)
  | pop {os : Libc} {b b' : BufferT} {q : List UInt8} {n r : ℕ} (hr : Built b q)
      (h : b.pop os n = .ok (b', r)) : Built b' (q.drop n)
  | shift {os : Libc} {b b' : BufferT} {q : List UInt8} (hr : Built b q)
      (h : b.shift os = .ok b') : Built b' q
  | clear {b : BufferT} {q : List UInt8} (hr : Built b q) : Built b.clear []
  | reset {os : Libc} {b b' : BufferT} {q : List UInt8} {size : ℕ} (hr : Built b q)
      (h0 : 0 < size) (hsize : size < 2 ^ 32) (h : b.reset os size = .ok b') : Built b' []

/-- Every history keeps the refinement. -/
lemma Built.refines {b : BufferT} {q : List UInt8} (h : Built b q) : Refines b q := by
  induction h with
  | empty => exact empty_refines
  | new hn h => exact new_refines (Nat.lt_trans hn (by decide)) h
  | copy hinit _ _ h ih => exact copy_refines hinit ih h
  | setShrinkLimit n _ ih => exact setShrinkLimit_refines ih n
  | push _ hsum h ih => exact push_refines ih hsum h
  | pushBuffer _ _ hsum h ih ih' =>
      rw [BufferT.pushBuffer, ih'.bytes_eq] at h
      exact push_refines ih hsum h
  | fill _ hsum hw hk h₁ h ih =>
      obtain ⟨hr₁, hroom, -⟩ := prepare_refines ih hsum h₁
      refine flushPush_refines hr₁ hk (by omega) (fun hn => ?_) h
      have := hr₁.null hn
      omega
  | pop _ h ih => exact pop_refines ih h
  | shift _ h ih => exact (shift_refines ih h).1
  | clear _ ih => exact clear_refines ih
  | reset _ _ hsize h ih => exact reset_refines ih hsize h

/-- **`buffer_t` refines a plain byte queue.**  After every history the positions are in order, the
window lies inside the storage, and the bytes in it are those of the queue. -/
theorem buffer_refines_queue {b : BufferT} {q : List UInt8} (h : Built b q) :
    b.start + b.len = b.end_ ∧ b.end_ ≤ b.allocSize ∧ b.bytes = q :=
  ⟨h.refines.start_add_len, h.refines.end_le, h.refines.bytes_eq⟩

/-- A buffer of three bytes that is filled, half emptied and filled beyond its capacity. -/
theorem buffer_refines_queue_grown : ∃ b, Built b [2, 3, 4, 5] ∧
    b.start + b.len = b.end_ ∧ b.end_ ≤ b.allocSize ∧ b.bytes = [2, 3, 4, 5] := by
  have h₀ : Built _ [] := .new (n := 3) (by decide) (show BufferT.new zeroLibc 3 = .ok _ from rfl)
  have h₁ : Built _ [1, 2, 3] :=
    .push h₀ (by decide) (show BufferT.push zeroLibc _ [1, 2, 3] = .ok (_, _) from rfl)
  have h₂ : Built _ [2, 3] :=
    .pop h₁ (show BufferT.pop zeroLibc _ 1 = .ok (_, _) from rfl)
  have h₃ : Built _ [2, 3, 4, 5] :=
    .push h₂ (by decide) (show BufferT.push zeroLibc _ [4, 5] = .ok (_, _) from rfl)
  exact ⟨_, h₃, buffer_refines_queue h₃⟩

end BufferT

end Axon
