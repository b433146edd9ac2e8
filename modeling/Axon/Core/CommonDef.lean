import Axon.Library.Heap
import Mathlib.Algebra.Group.Int.Defs
import Mathlib.Algebra.Group.Nat.Defs
import Mathlib.Data.Nat.Basic
import Mathlib.Tactic.SplitIfs

/-!
# Common definitions

`common_def.h` and the part of `ax_debug.h` every class of the core uses: the return codes, the
runtime assertion, and 32-bit unsigned arithmetic; and how the core reaches memory, the answers of
the C library and the records behind its pointers.

A failed `RT_ASSERT` calls `ax_assert`, which logs the expression and aborts the process, in debug
and in release builds alike; there is no state after it.  A fallible operation is therefore a value
of `Except Fault`.
-/

namespace Axon

open Library

/-- The ways a run of the core ends without returning. -/
inductive Fault where
  /-- `RT_ASSERT(expr)` failed; `ax_assert` logs the expression and calls `abort`. -/
  | rtAssert (expr : String)
  /-- An access outside the storage an object owns, or to storage already given back. -/
  | badAccess
  /-- A pointer walk that does not come to its `NULL`. -/
  | hang
  /-- An integer division or remainder by zero. -/
  | divByZero
deriving DecidableEq, Repr

/-- `RT_ASSERT(expr)`. -/
def rtAssert (expr : String) (p : Prop) [Decidable p] : Except Fault Unit :=
  if p then .ok () else .error (.rtAssert expr)

@[simp] lemma rtAssert_of_pos {expr : String} {p : Prop} [Decidable p] (h : p) :
    rtAssert expr p = .ok () := if_pos h

lemma rtAssert_eq_ok {expr : String} {p : Prop} [Decidable p] {u : Unit}
    (h : rtAssert expr p = .ok u) : p := by
  rw [rtAssert] at h
  split_ifs at h with hp
  exact hp

/-- What a sequence of two fallible steps returned, its first step returned: the inversion every
proof about a `do` block of the core starts with. -/
lemma bind_eq_ok {α β : Type} {x : Except Fault α} {f : α → Except Fault β} {b : β}
    (h : x >>= f = .ok b) : ∃ a, x = .ok a ∧ f a = .ok b := by
  cases x with
  | error e => exact absurd h (by simp [Bind.bind, Except.bind])
  | ok a => exact ⟨a, rfl, h⟩

@[simp] lemma ok_bind {α β : Type} (a : α) (f : α → Except Fault β) :
    ((.ok a : Except Fault α) >>= f) = f a := rfl

/-- The return codes `AX_RET_OK`, `AX_RET_ERROR`, `AX_RET_FULL` and `AX_RET_AGAIN`. -/
def axRetOk : ℤ := 0

@[inherit_doc axRetOk] def axRetError : ℤ := -1

@[inherit_doc axRetOk] def axRetFull : ℤ := -2

@[inherit_doc axRetOk] def axRetAgain : ℤ := -3

/-- The value a `uint32_t` holds after the number `n` has been stored in it. -/
def u32 (n : ℕ) : ℕ := n % 2 ^ 32

lemma u32_of_lt {n : ℕ} (h : n < 2 ^ 32) : u32 n = n := Nat.mod_eq_of_lt h

/-- The value a `uint64_t` holds after the number `n` has been stored in it. -/
def u64 (n : ℕ) : ℕ := n % 2 ^ 64

lemma u64_of_lt {n : ℕ} (h : n < 2 ^ 64) : u64 n = n := Nat.mod_eq_of_lt h

/-- The value an `int` holds after the `uint32_t` value `n` has been stored in it. -/
def i32 (n : ℕ) : ℤ := if u32 n < 2 ^ 31 then u32 n else (u32 n : ℤ) - 2 ^ 32

lemma i32_of_lt {n : ℕ} (h : n < 2 ^ 31) : i32 n = n := by
  have hu : u32 n = n := u32_of_lt (by omega)
  rw [i32, hu, if_pos h]

/-! ## Memory -/

/-- The answers of the C library to one operation's requests for memory: for each size the contents
of the block returned, or `NULL`.  A fresh block holds arbitrary bytes. -/
structure Libc where
  malloc : ℕ → Option (ℕ → UInt8)
  /-- The bytes a reallocated block holds beyond the ones kept from the old block. -/
  realloc : ℕ → Option (ℕ → UInt8)

/-- `realloc(p, n)` for a block `p` of `old` bytes: the bytes common to the old and the new block
are kept. -/
def Libc.reallocBlock (os : Libc) (p : Option (ℕ → UInt8)) (old n : ℕ) : Option (ℕ → UInt8) :=
  (os.realloc n).map fun junk i =>
    match p with
    | none => junk i
    | some m => if i < min old n then m i else junk i

/-- Requests for memory are always met. -/
structure Libc.Total (os : Libc) : Prop where
  malloc : ∀ n, (os.malloc n).isSome
  realloc : ∀ n, (os.realloc n).isSome

/-- A C library whose blocks are filled with zeros. -/
def zeroLibc : Libc := ⟨fun _ => some fun _ => 0, fun _ => some fun _ => 0⟩

lemma zeroLibc_total : zeroLibc.Total := ⟨fun _ => rfl, fun _ => rfl⟩

/-! ## Sockets -/

/-- The outcome of `::read(fd, buf, n)`. -/
inductive ReadResult where
  /-- The bytes stored at `buf`; the empty list is the end of the stream. -/
  | data (bytes : List UInt8)
  /-- `EAGAIN`, `EINTR` or `EWOULDBLOCK`. -/
  | again
  | fail
deriving DecidableEq, Repr

/-- The outcome of `::write(fd, buf, n)`. -/
inductive WriteResult where
  /-- The first `n` bytes were taken, all of them if there were fewer. -/
  | accept (n : ℕ)
  /-- `EAGAIN`, `EINTR` or `EWOULDBLOCK`. -/
  | again
  | fail
deriving DecidableEq, Repr

/-! ## Pointers -/

section Pointers

variable {ε : Type}

/-- Reads `*p` for a pointer to a record. -/
def deref (h : Heap ε) (a : ℕ) : Except Fault ε :=
  match h.cell a with
  | some e => .ok e
  | none => .error .badAccess

/-- An assignment to fields of `*p`. -/
def assign (h : Heap ε) (a : ℕ) (f : ε → ε) : Except Fault (Heap ε) :=
  match h.cell a with
  | some _ => .ok (h.write a f)
  | none => .error .badAccess

/-- `if (p != NULL)` and then an assignment to fields of `*p`. -/
def assignIf (h : Heap ε) (p : Option ℕ) (f : ε → ε) : Except Fault (Heap ε) :=
  match p with
  | some a => assign h a f
  | none => .ok h

/-- `delete p`, or `free(p)`, of a record. -/
def release (h : Heap ε) (a : ℕ) : Except Fault (Heap ε) :=
  match h.cell a with
  | some _ => .ok (h.free a)
  | none => .error .badAccess

variable {h : Heap ε} {a : ℕ} {e : ε}

lemma deref_eq (ha : h.cell a = some e) : deref h a = .ok e := by rw [deref, ha]

lemma deref_eq_ok (hok : deref h a = .ok e) : h.cell a = some e := by
  rw [deref] at hok
  cases hc : h.cell a with
  | none =>
      rw [hc] at hok
      exact absurd hok nofun
  | some e' =>
      rw [hc] at hok
      rw [Except.ok.inj hok]

lemma assign_eq (ha : h.Live a) (f : ε → ε) : assign h a f = .ok (h.write a f) := by
  obtain ⟨e, he⟩ := Heap.live_iff.mp ha
  rw [assign, he]

lemma assignIf_eq {p : Option ℕ} (hp : ∀ b, p = some b → h.Live b) (f : ε → ε) :
    assignIf h p f = .ok (h.writeAt p f) := by
  cases p with
  | none => rfl
  | some b => exact assign_eq (hp b rfl) f

lemma release_eq (ha : h.Live a) : release h a = .ok (h.free a) := by
  obtain ⟨e, he⟩ := Heap.live_iff.mp ha
  rw [release, he]

end Pointers

end Axon
