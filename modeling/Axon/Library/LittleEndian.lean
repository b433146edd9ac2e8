import Axon.Library.Window

/-!
# Little-endian words in a block of bytes

* `le32 n` — the four bytes of the word `n`, least significant first.
* `word32 m off` — the word stored in a block at an offset.
* **`word32_of_window`** — a block that shows the bytes of a word holds that word.
* `leBytes k v`, `leValue` — the `k` bytes of an integer in two's complement, and the number some
  bytes stand for.
* **`leValue_leBytes`** — the number read back, up to a multiple of `256 ^ k`.
-/

namespace Library

/-- The bytes of a 32-bit word, least significant first. -/
def le32 (n : ℕ) : List UInt8 :=
  [UInt8.ofNat n, UInt8.ofNat (n / 2 ^ 8), UInt8.ofNat (n / 2 ^ 16), UInt8.ofNat (n / 2 ^ 24)]

@[simp] lemma length_le32 (n : ℕ) : (le32 n).length = 4 := rfl

/-- The 32-bit word at offset `off`. -/
def word32 (m : ℕ → UInt8) (off : ℕ) : ℕ :=
  (m off).toNat + (m (off + 1)).toNat * 2 ^ 8 + (m (off + 2)).toNat * 2 ^ 16
    + (m (off + 3)).toNat * 2 ^ 24

/-- A block that shows the bytes of a word holds the word. -/
lemma word32_of_window {m : ℕ → UInt8} {off n : ℕ} (hn : n < 2 ^ 32)
    (h : window m off 4 = le32 n) : word32 m off = n := by
  simp only [window, le32, List.cons.injEq] at h
  obtain ⟨h0, h1, h2, h3, -⟩ := h
  have e1 : off + 1 + 1 = off + 2 := rfl
  have e2 : off + 1 + 1 + 1 = off + 3 := rfl
  rw [e1] at h2
  rw [e2] at h3
  rw [word32, h0, h1, h2, h3]
  simp only [UInt8.toNat_ofNat']
  omega

/-- A word only depends on its four bytes. -/
lemma word32_congr {m m' : ℕ → UInt8} {off off' : ℕ} (h : ∀ k < 4, m (off + k) = m' (off' + k)) :
    word32 m off = word32 m' off' := by
  have h0 : m off = m' off' := h 0 (by decide)
  rw [word32, word32, h0, h 1 (by decide), h 2 (by decide), h 3 (by decide)]

/-- A copy elsewhere leaves a word alone. -/
lemma word32_blit_of_outside (m : ℕ → UInt8) {off pos : ℕ} {bs : List UInt8}
    (h : pos + 4 ≤ off ∨ off + bs.length ≤ pos) : word32 (blit m off bs) pos = word32 m pos :=
  word32_congr fun k hk => blit_of_outside m (by omega)

lemma word32_blit_self (m : ℕ → UInt8) (off : ℕ) {n : ℕ} (hn : n < 2 ^ 32) :
    word32 (blit m off (le32 n)) off = n :=
  word32_of_window hn (window_blit_self m off (le32 n))

/-- The `k` bytes of an integer in two's complement, least significant first. -/
def leBytes : ℕ → ℤ → List UInt8
  | 0, _ => []
  | k + 1, v => UInt8.ofInt v :: leBytes k (v / 256)

/-- The number some bytes stand for, least significant first. -/
def leValue : List UInt8 → ℤ
  | [] => 0
  | b :: bs => b.toNat + 256 * leValue bs

lemma leValue_lt : ∀ bs : List UInt8, leValue bs < 256 ^ bs.length
  | [] => by decide
  | b :: bs => by
      have hb : (b.toNat : ℤ) < 256 := by exact_mod_cast b.toNat_lt
      have ih := leValue_lt bs
      rw [leValue, List.length_cons, pow_succ]
      omega

@[simp] lemma length_leBytes (k : ℕ) (v : ℤ) : (leBytes k v).length = k := by
  induction k generalizing v with
  | zero => rfl
  | succ k ih => rw [leBytes, List.length_cons, ih]

lemma getD_leBytes {k i : ℕ} (hi : i < k) (v : ℤ) :
    (leBytes k v).getD i 0 = UInt8.ofInt (v / 256 ^ i) := by
  induction k generalizing i v with
  | zero => exact absurd hi (Nat.not_lt_zero i)
  | succ k ih =>
      cases i with
      | zero => rw [leBytes, List.getD_cons_zero, Int.pow_zero, Int.ediv_one]
      | succ i =>
          rw [leBytes, List.getD_cons_succ, ih (by omega), Int.pow_succ, Int.mul_comm,
            Int.ediv_mul_of_nonneg (by decide)]

lemma toNat_ofInt (v : ℤ) : ((UInt8.ofInt v).toNat : ℤ) = v % 256 := by
  rw [UInt8.ofInt, UInt8.toNat_ofNat']
  omega

/-- A remainder in two parts: the low byte, and the remainder of the rest. -/
lemma emod_byte (v : ℤ) (k : ℕ) : v % 256 ^ (k + 1) = v % 256 + 256 * (v / 256 % 256 ^ k) := by
  have hpos : (0 : ℤ) < 256 ^ k := Int.pow_pos (by decide)
  rw [Int.pow_succ, Int.mul_comm]
  generalize (256 : ℤ) ^ k = M at hpos ⊢
  have hdiv := Int.mul_ediv_add_emod (v / 256) M
  have hlo := Int.emod_nonneg (v / 256) (Int.ne_of_gt hpos)
  have hhi := Int.emod_lt_of_pos (v / 256) hpos
  have hv : v % 256 + 256 * (v / 256 % M) + 256 * M * (v / 256 / M) = v := by
    rw [Int.mul_assoc]
    omega
  exact ((Int.ediv_emod_unique (by omega)).mpr ⟨hv, by omega, by omega⟩).2

/-- **Reading back the bytes of an integer.** -/
lemma leValue_leBytes (k : ℕ) (v : ℤ) : leValue (leBytes k v) = v % 256 ^ k := by
  induction k generalizing v with
  | zero => exact (Int.emod_one v).symm
  | succ k ih => rw [leBytes, leValue, ih, toNat_ofInt, emod_byte]

/-- A 32-bit word is the number its bytes stand for. -/
lemma leValue_window (m : ℕ → UInt8) (off : ℕ) : leValue (window m off 4) = word32 m off := by
  simp only [window, leValue, word32, Nat.cast_add, Nat.cast_mul, Nat.cast_pow, Nat.cast_ofNat]
  ring

/-- The bytes depend only on the remainder. -/
lemma leBytes_congr {k : ℕ} {v w : ℤ} (h : v % 256 ^ k = w % 256 ^ k) :
    leBytes k v = leBytes k w := by
  induction k generalizing v w with
  | zero => rfl
  | succ k ih =>
      rw [emod_byte v, emod_byte w] at h
      have hbyte : v % 256 = w % 256 := by omega
      have hrest : v / 256 % 256 ^ k = w / 256 % 256 ^ k := by omega
      rw [leBytes, leBytes, ih hrest, UInt8.ofInt, UInt8.ofInt,
        show v % 2 ^ 8 = w % 2 ^ 8 from hbyte]

end Library
