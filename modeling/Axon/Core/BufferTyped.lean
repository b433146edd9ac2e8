import Axon.Core.BufferRefinement
import Axon.Library.LittleEndian

/-!
# Typed values in a `buffer_t`

`ax_buffer.cc`: `push(char)`, `push(short)` and `push(int)` store a value as its bytes, and
`pop_char`, `pop_short` and `pop_int` take one out.

A typed pop takes the address of the front, pops, and only then reads through the address.  `pop`
may have called `shrink` in between, which gives the block back.

* **`popFreeing`** : `pop`, with whether the block it started from has been given back.
* **`pushValue`**, **`popValue`** : the two families; `pushChar`, `popChar` and so on are their
  members.
* **`TypedRun`** : every interleaving of pushes and of pops of the oldest value's type.
* **`typed_values_pass`** : a pop returns the value pushed exactly when it does not shrink.
-/

namespace Axon

open Library

namespace BufferT

/-! ## Values and their bytes -/

/-- The types `char`, `short` and `int`. -/
inductive ScalarType where
  | char
  | short
  | int
deriving DecidableEq, Repr

/-- `sizeof`. -/
def ScalarType.size : ScalarType → ℕ
  | .char => 1
  | .short => 2
  | .int => 4

/-- A value of one of the types, in two's complement. -/
structure Scalar where
  type : ScalarType
  val : BitVec (8 * type.size)
deriving DecidableEq, Repr

/-- The bytes of a value, least significant first. -/
def Scalar.bytes (v : Scalar) : List UInt8 := leBytes v.type.size v.val.toInt

/-- The value some bytes stand for. -/
def ScalarType.read (t : ScalarType) (bs : List UInt8) : BitVec (8 * t.size) :=
  BitVec.ofInt (8 * t.size) (leValue bs)

lemma ScalarType.size_pos (t : ScalarType) : 0 < t.size := by
  cases t <;> decide

@[simp] lemma Scalar.length_bytes (v : Scalar) : v.bytes.length = v.type.size := length_leBytes ..

/-- **A value is read back** from its bytes. -/
lemma Scalar.read_bytes (v : Scalar) : v.type.read v.bytes = v.val := by
  have hpow : (256 : ℤ) ^ v.type.size = 2 ^ (8 * v.type.size) := by
    rw [pow_mul]
    norm_num
  rw [ScalarType.read, bytes, leValue_leBytes, hpow]
  apply BitVec.eq_of_toInt_eq
  rw [BitVec.toInt_ofInt]
  have hmod : (v.val.toInt % 2 ^ (8 * v.type.size)).bmod (2 ^ (8 * v.type.size)) =
      v.val.toInt.bmod (2 ^ (8 * v.type.size)) := by
    exact_mod_cast Int.emod_bmod v.val.toInt (2 ^ (8 * v.type.size))
  rw [hmod, BitVec.toInt_bmod_cancel]

/-! ## The operations -/

/-- `push(char)`, `push(short)` and `push(int)`. -/
def pushValue (os : Libc) (b : BufferT) (v : Scalar) : Except Fault BufferT := do
  let (b, _) ← push os b v.bytes
  return b

/-- `buffer_t::push(char)`. -/
def pushChar (os : Libc) (b : BufferT) (c : BitVec 8) : Except Fault BufferT :=
  b.pushValue os ⟨.char, c⟩

/-- `buffer_t::push(short)`. -/
def pushShort (os : Libc) (b : BufferT) (n : BitVec 16) : Except Fault BufferT :=
  b.pushValue os ⟨.short, n⟩

/-- `buffer_t::push(int)`. -/
def pushInt (os : Libc) (b : BufferT) (n : BitVec 32) : Except Fault BufferT :=
  b.pushValue os ⟨.int, n⟩

/-- `buffer_t::pop`, with whether `shrink` has given back the block that `buf_` pointed to. -/
def popFreeing (os : Libc) (b : BufferT) (n : ℕ) : Except Fault (BufferT × Bool) :=
  if b.len ≤ n then
    let b' := { b with start := 0, end_ := 0, len := 0 }
    if 0 < b.upperLimit ∧ b.upperLimit < b.allocSize then do
      let b' ← shrink os b'
      return (b', true)
    else
      .ok (b', false)
  else
    .ok ({ b with start := u32 (b.start + n), len := b.len - n }, false)

/-- `pop_char`, `pop_short` and `pop_int`: `p = data()`, then `pop`, then `*p`.  The block is the
one `p` points into, or it has been given back. -/
def popValue (os : Libc) (b : BufferT) (t : ScalarType) :
    Except Fault (BufferT × BitVec (8 * t.size)) := do
  rtAssert "p != NULL" (b.data.isSome)
  let (b', freed) ← popFreeing os b t.size
  match freed, b'.buf with
  | false, some m =>
      if b.start + t.size ≤ b'.allocSize then
        return (b', t.read (window m b.start t.size))
      else
        .error .badAccess
  | _, _ => .error .badAccess

/-- `buffer_t::pop_char`. -/
def popChar (os : Libc) (b : BufferT) : Except Fault (BufferT × BitVec 8) := b.popValue os .char

/-- `buffer_t::pop_short`. -/
def popShort (os : Libc) (b : BufferT) : Except Fault (BufferT × BitVec 16) := b.popValue os .short

/-- `buffer_t::pop_int`. -/
def popInt (os : Libc) (b : BufferT) : Except Fault (BufferT × BitVec 32) := b.popValue os .int

/-- A pop of `n` bytes gives the block back. -/
def Frees (b : BufferT) (n : ℕ) : Prop :=
  b.len ≤ n ∧ 0 < b.upperLimit ∧ b.upperLimit < b.allocSize

variable {os : Libc} {b b' : BufferT} {q : List Scalar} {v : Scalar} {n : ℕ}

/-- `popFreeing` is `pop`. -/
lemma popFreeing_eq (os : Libc) (b : BufferT) (n : ℕ) :
    (popFreeing os b n).map Prod.fst = (pop os b n).map Prod.fst := by
  rw [popFreeing, pop]
  by_cases hn : b.len ≤ n
  · rw [if_pos hn, if_pos hn]
    by_cases hc : 0 < b.upperLimit ∧ b.upperLimit < b.allocSize
    · simp only [if_pos hc]
      cases shrink os { b with start := 0, end_ := 0, len := 0 } with
      | error e => rfl
      | ok b' => rfl
    · simp only [if_neg hc]
      rfl
  · rw [if_neg hn, if_neg hn]
    rfl

/-- A pop that does not shrink leaves the storage as it is. -/
lemma popFreeing_of_not_frees (os : Libc) (h : ¬ b.Frees n) :
    ∃ b', popFreeing os b n = .ok (b', false) ∧ b'.buf = b.buf ∧ b'.allocSize = b.allocSize := by
  rw [popFreeing]
  by_cases hn : b.len ≤ n
  · have hc : ¬ (0 < b.upperLimit ∧ b.upperLimit < b.allocSize) := fun hc => h ⟨hn, hc⟩
    rw [if_pos hn]
    dsimp only
    rw [if_neg hc]
    exact ⟨_, rfl, rfl, rfl⟩
  · rw [if_neg hn]
    exact ⟨_, rfl, rfl, rfl⟩

/-- A pop that shrinks has given the block back when it is read. -/
lemma popValue_of_frees {t : ScalarType} {r : BufferT × BitVec (8 * t.size)}
    (h : b.Frees t.size) : popValue os b t ≠ .ok r := by
  intro hok
  obtain ⟨-, -, hok⟩ := bind_eq_ok hok
  obtain ⟨⟨b', freed⟩, hpop, hok⟩ := bind_eq_ok hok
  rw [popFreeing, if_pos h.1] at hpop
  dsimp only at hpop
  rw [if_pos h.2] at hpop
  obtain ⟨b₁, -, hpop⟩ := bind_eq_ok hpop
  obtain ⟨-, rfl⟩ := Prod.mk.inj (Except.ok.inj hpop)
  exact absurd hok nofun

/-- **A pop that does not shrink** returns the bytes at the front. -/
lemma popValue_eq {w : List UInt8} (os : Libc) (hr : Refines b (v.bytes ++ w))
    (h : ¬ b.Frees v.type.size) :
    ∃ b', popValue os b v.type = .ok (b', v.val) ∧ Refines b' w := by
  have hne : v.bytes ++ w ≠ [] := by
    intro hnil
    have hpos := v.type.size_pos
    have hlen := congrArg List.length hnil
    simp only [List.length_append, Scalar.length_bytes, List.length_nil] at hlen
    omega
  obtain ⟨p, hdata, -⟩ := data_of_refines hr hne
  obtain ⟨b', hpop, hbuf, halloc⟩ := popFreeing_of_not_frees os h
  have hlen := hr.length_eq
  rw [List.length_append, Scalar.length_bytes] at hlen
  have hpos := hr.start_add_len
  have hend := hr.end_le
  obtain ⟨m, hm⟩ : ∃ m, b.buf = some m := by
    rw [data] at hdata
    split_ifs at hdata
    exact (Option.map_eq_some_iff.mp hdata).imp fun _ h => h.1
  have hfront : window m b.start v.type.size = v.bytes := by
    rw [← take_window m b.start (n := b.len) (by omega), hr.window_eq hm,
      List.take_append_of_le_length (by simp), List.take_of_length_le (by simp)]
  have hrest : Refines b' w := by
    -- what is left is what `pop` leaves
    have heq := popFreeing_eq os b v.type.size
    rw [hpop] at heq
    cases hplain : pop os b v.type.size with
    | error e =>
        rw [hplain] at heq
        cases heq
    | ok r =>
        rw [hplain] at heq
        have hb' : b' = r.1 := Except.ok.inj heq
        have hdrop := pop_refines hr (show _ = Except.ok (r.1, r.2) from hplain)
        rw [← Scalar.length_bytes v, List.drop_left] at hdrop
        rwa [hb']
  refine ⟨b', ?_, hrest⟩
  rw [popValue, rtAssert_of_pos (by rw [hdata]; rfl), ok_bind, hpop, ok_bind]
  dsimp only
  rw [hbuf, hm]
  dsimp only
  rw [if_pos (by omega), hfront, v.read_bytes]
  rfl

/-- With memory to spare a value can be pushed. -/
lemma pushValue_total {w : List UInt8} (ht : os.Total) (hr : Refines b w)
    (hok : b.Preparable v.type.size) : ∃ b', pushValue os b v = .ok b' := by
  obtain ⟨b₁, r, hprep⟩ := prepare_returns ht b v.bytes.length
  obtain ⟨hr₁, hroom, -⟩ := prepare_room hr (by rwa [v.length_bytes]) hprep
  have hsome : b₁.buf.isSome := by
    rw [Option.isSome_iff_ne_none]
    intro hnone
    have hzero := hr₁.null hnone
    have hpos := v.type.size_pos
    rw [v.length_bytes] at hroom
    omega
  rw [pushValue, push, hprep, ok_bind]
  dsimp only
  rw [rtAssert_of_pos hsome]
  exact ⟨_, rfl⟩

/-! ## Every interleaving -/

/-- A buffer of any initial size and any shrink limit, after any interleaving of pushes and of pops
that returned; each pop has the type of the oldest value, and no sum in a push wraps. -/
inductive TypedRun : BufferT → List Scalar → Prop where
  | empty : TypedRun BufferT.empty []
  | new {os : Libc} {n : ℕ} {b : BufferT} (hn : n < 2 ^ 32) (h : BufferT.new os n = .ok b) :
      TypedRun b []
  | setShrinkLimit {b : BufferT} {q : List Scalar} (n : ℕ) (hr : TypedRun b q) :
      TypedRun (b.setShrinkLimit n) q
  | push {os : Libc} {b b' : BufferT} {q : List Scalar} {v : Scalar} (hr : TypedRun b q)
      (hok : b.Preparable v.type.size) (h : b.pushValue os v = .ok b') :
      TypedRun b' (q ++ [v])
  | pop {os : Libc} {b b' : BufferT} {q : List Scalar} {v : Scalar}
      {w : BitVec (8 * v.type.size)} (hr : TypedRun b (v :: q))
      (h : b.popValue os v.type = .ok (b', w)) : TypedRun b' q

/-- **The buffer holds the bytes** of the values not popped yet. -/
lemma TypedRun.refines (h : TypedRun b q) : Refines b (q.flatMap Scalar.bytes) := by
  induction h with
  | empty => exact empty_refines
  | new hn h => exact new_refines hn h
  | setShrinkLimit n _ ih => exact setShrinkLimit_refines ih n
  | push _ hok h ih =>
      obtain ⟨⟨b₁, r⟩, hpush, h⟩ := bind_eq_ok h
      obtain rfl := Except.ok.inj h
      rw [List.flatMap_append, List.flatMap_singleton]
      exact push_room ih (by rwa [Scalar.length_bytes]) hpush
  | @pop os b b' q v w _ h ih =>
      rw [List.flatMap_cons] at ih
      have hkeep : ¬ b.Frees v.type.size := fun hfrees => popValue_of_frees hfrees h
      obtain ⟨b₁, hpop, hrest⟩ := popValue_eq os ih hkeep
      obtain ⟨rfl, -⟩ := Prod.mk.inj (Except.ok.inj (hpop.symm.trans h))
      exact hrest

/-- **Typed values pass through a buffer**: with memory to spare every push whose sums do not wrap
returns, and the pop of the oldest value returns it exactly when the pop does not give the block
back, that is, when there are more bytes, or the buffer has no limit, or it is not above its limit.
-/
theorem typed_values_pass (h : TypedRun b q) (ht : os.Total) :
    (∀ v : Scalar, b.Preparable v.type.size → ∃ b', b.pushValue os v = .ok b') ∧
      ∀ (v : Scalar) (rest : List Scalar), q = v :: rest →
        ((∃ b', b.popValue os v.type = .ok (b', v.val)) ↔
          ¬ (b.len ≤ v.type.size ∧ 0 < b.upperLimit ∧ b.upperLimit < b.allocSize)) := by
  refine ⟨fun v hok => pushValue_total ht h.refines hok, ?_⟩
  rintro v rest rfl
  constructor
  · rintro ⟨b', hpop⟩ hfrees
    exact popValue_of_frees hfrees hpop
  · intro hkeep
    have hr := h.refines
    rw [List.flatMap_cons] at hr
    obtain ⟨b', hpop, -⟩ := popValue_eq os hr hkeep
    exact ⟨b', hpop⟩

/-- A `short` and an `int` in a buffer of 16 bytes. -/
theorem typed_values_pass_two : ∃ b b' : BufferT,
    TypedRun b [⟨.short, -2⟩, ⟨.int, 70000⟩] ∧ b.popShort zeroLibc = .ok (b', -2) := by
  have h₀ : TypedRun _ [] := .new (n := 16) (by decide)
    (show BufferT.new zeroLibc 16 = .ok _ from rfl)
  have h₁ : TypedRun _ [⟨.short, -2⟩] := .push h₀ (v := ⟨.short, -2⟩) (by decide)
    (show BufferT.pushValue zeroLibc _ _ = .ok _ from rfl)
  have h₂ : TypedRun _ [⟨.short, -2⟩, ⟨.int, 70000⟩] := .push h₁ (v := ⟨.int, 70000⟩) (by decide)
    (show BufferT.pushValue zeroLibc _ _ = .ok _ from rfl)
  obtain ⟨b', hpop⟩ := ((typed_values_pass h₂ zeroLibc_total).2 _ _ rfl).mpr (by decide)
  exact ⟨_, b', h₂, hpop⟩

/-- **A value read from a block given back**: a buffer of one byte that has grown for an `int`. -/
theorem typed_value_lost : ∃ b : BufferT, TypedRun b [⟨.int, 70000⟩] ∧
    b.popInt zeroLibc = .error .badAccess := by
  have h₀ : TypedRun _ [] := .new (n := 1) (by decide)
    (show BufferT.new zeroLibc 1 = .ok _ from rfl)
  have h₁ : TypedRun _ [⟨.int, 70000⟩] := .push h₀ (v := ⟨.int, 70000⟩) (by decide)
    (show BufferT.pushValue zeroLibc _ _ = .ok _ from rfl)
  exact ⟨_, h₁, rfl⟩

end BufferT

end Axon
