import Mathlib.Data.List.Basic
import Mathlib.Tactic.Ring

/-!
# Windows of a memory block

A block of memory is a total function from offsets to cells; how much of it is really allocated is
the owner's bookkeeping.  The two operations a byte buffer performs on such a block are reading a
window and copying a list over a range of it, and everything a buffer does is a composition of the
two.

* `window m s n` — the `n` cells from offset `s` on.
* `blit m off bs` — the block after copying `bs` to offset `off`, what `memcpy` does.
* **`window_append`** — a window splits anywhere, so appending behind a window extends it.
* **`window_blit_self`**, `window_blit_of_le` — reading after a copy, at the copied range and before
  it.
* `blit_blit_append` — two copies back to back are one.
-/

namespace Library

variable {α : Type}

/-- The `n` cells of the block `m` from offset `s` on, in order. -/
def window (m : ℕ → α) (s : ℕ) : ℕ → List α
  | 0 => []
  | n + 1 => m s :: window m (s + 1) n

/-- The block `m` after `bs` has been copied to offset `off`.  Cells outside the copied range keep
their contents. -/
def blit (m : ℕ → α) (off : ℕ) (bs : List α) : ℕ → α :=
  fun i => if i < off then m i else (bs[i - off]?).getD (m i)

@[simp] lemma window_zero (m : ℕ → α) (s : ℕ) : window m s 0 = [] := rfl

@[simp] lemma length_window (m : ℕ → α) : ∀ (n s : ℕ), (window m s n).length = n
  | 0, _ => rfl
  | n + 1, s => by simp [window, length_window m n (s + 1)]

/-- A window splits at every point inside it. -/
lemma window_append (m : ℕ → α) : ∀ (a b s : ℕ),
    window m s (a + b) = window m s a ++ window m (s + a) b
  | 0, b, s => by simp
  | a + 1, b, s => by
      have hab : a + 1 + b = (a + b) + 1 := by omega
      have hs : s + (a + 1) = s + 1 + a := by omega
      rw [hab, window, window, window_append m a b (s + 1), hs, List.cons_append]

/-- Dropping from a window moves its start. -/
lemma drop_window (m : ℕ → α) (s : ℕ) {k n : ℕ} (h : k ≤ n) :
    (window m s n).drop k = window m (s + k) (n - k) := by
  obtain ⟨r, rfl⟩ := Nat.exists_eq_add_of_le h
  rw [window_append, List.drop_append_of_le_length (by simp), Nat.add_sub_cancel_left,
    List.drop_of_length_le (by simp), List.nil_append]

/-- Taking from a window moves its end. -/
lemma take_window (m : ℕ → α) (s : ℕ) {k n : ℕ} (h : k ≤ n) :
    (window m s n).take k = window m s k := by
  obtain ⟨r, rfl⟩ := Nat.exists_eq_add_of_le h
  rw [window_append, List.take_append_of_le_length (by simp), List.take_of_length_le (by simp)]

/-- A window only depends on the cells inside it.  The two windows may sit at different offsets of
different blocks, which is the form a move of the contents needs. -/
lemma window_congr {m m' : ℕ → α} : ∀ {n s s' : ℕ},
    (∀ i < n, m (s + i) = m' (s' + i)) → window m s n = window m' s' n
  | 0, _, _, _ => rfl
  | n + 1, s, s', h => by
      rw [window, window]
      have h0 := h 0 (by omega)
      simp only [Nat.add_zero] at h0
      rw [h0]
      congr 1
      refine window_congr fun i hi => ?_
      have hs := h (i + 1) (by omega)
      rwa [show s + 1 + i = s + (i + 1) by omega, show s' + 1 + i = s' + (i + 1) by omega]

/-- Two windows that show the same list agree cell by cell. -/
lemma eq_of_window_eq {m m' : ℕ → α} : ∀ {n s s' : ℕ}, window m s n = window m' s' n →
    ∀ i < n, m (s + i) = m' (s' + i)
  | 0, _, _, _, _, hi => absurd hi (Nat.not_lt_zero _)
  | n + 1, s, s', h, i, hi => by
      obtain ⟨hhead, htail⟩ := List.cons.inj h
      cases i with
      | zero => exact hhead
      | succ i =>
          have := eq_of_window_eq htail i (by omega)
          rwa [show s + 1 + i = s + (i + 1) by omega,
            show s' + 1 + i = s' + (i + 1) by omega] at this

lemma window_mem {m : ℕ → α} {n i : ℕ} (h : i < n) : m i ∈ window m 0 n := by
  have hget : (window m 0 n)[i]? = some (m i) := by
    obtain ⟨r, rfl⟩ := Nat.exists_eq_add_of_lt h
    rw [Nat.add_assoc, window_append, List.getElem?_append_right (by simp), length_window,
      Nat.sub_self, Nat.zero_add]
    rfl
  exact List.mem_of_getElem? hget

/-- A block that holds one cell over and over. -/
lemma window_const {a b : α} : ∀ {n s : ℕ}, b ∈ window (fun _ => a) s n → b = a
  | 0, _, h => absurd h List.not_mem_nil
  | _ + 1, _, h => (List.mem_cons.mp h).elim id window_const

lemma blit_apply (m : ℕ → α) (off : ℕ) (bs : List α) {i : ℕ} (h : i < bs.length) :
    blit m off bs (off + i) = bs[i] := by
  rw [blit, if_neg (by omega), Nat.add_sub_cancel_left, List.getElem?_eq_getElem h]
  rfl

/-- Cells outside the copied range keep their contents. -/
lemma blit_of_outside (m : ℕ → α) {off i : ℕ} {bs : List α} (h : i < off ∨ off + bs.length ≤ i) :
    blit m off bs i = m i := by
  rw [blit]
  split_ifs with hi
  · rfl
  · rw [List.getElem?_eq_none (by omega), Option.getD_none]

/-- Reading back the copied range gives the copied list. -/
lemma window_blit_self (m : ℕ → α) (off : ℕ) (bs : List α) :
    window (blit m off bs) off bs.length = bs := by
  induction bs generalizing m off with
  | nil => rfl
  | cons b bs ih =>
      rw [List.length_cons, window]
      have hhead := blit_apply m off (b :: bs) (i := 0) (by simp)
      simp only [Nat.add_zero, List.getElem_cons_zero] at hhead
      rw [hhead]
      congr 1
      refine Eq.trans (window_congr fun i hi => ?_) (ih m (off + 1))
      have hi' := blit_apply m off (b :: bs) (i := i + 1) (by simpa using hi)
      rw [show off + 1 + i = off + (i + 1) by omega, hi',
        ← show off + 1 + i = off + (i + 1) by omega, blit_apply m (off + 1) bs hi]
      simp

/-- A copy leaves every window that ends before it alone. -/
lemma window_blit_of_le (m : ℕ → α) (bs : List α) {off s n : ℕ} (h : s + n ≤ off) :
    window (blit m off bs) s n = window m s n :=
  window_congr fun i hi => by rw [blit, if_pos (by omega)]

/-- Copying what is there already. -/
lemma blit_eq_self {m : ℕ → α} {off : ℕ} {bs : List α} (h : window m off bs.length = bs) :
    blit m off bs = m := by
  have hwin := (window_blit_self m off bs).trans h.symm
  funext i
  by_cases hi : i < off ∨ off + bs.length ≤ i
  · exact blit_of_outside m hi
  · obtain ⟨k, rfl⟩ := Nat.exists_eq_add_of_le (Nat.le_of_not_lt fun hlt => hi (.inl hlt))
    exact eq_of_window_eq hwin k (by omega)

/-- Two copies back to back are one copy. -/
lemma blit_blit_append (m : ℕ → α) (off : ℕ) (as bs : List α) :
    blit (blit m off as) (off + as.length) bs = blit m off (as ++ bs) := by
  funext i
  simp only [blit]
  by_cases h1 : i < off
  · rw [if_pos (by omega), if_pos h1, if_pos h1]
  · by_cases h2 : i < off + as.length
    · rw [if_pos h2, if_neg h1, if_neg h1, List.getElem?_append_left (by omega)]
    · have h3 : as[i - off]? = none := List.getElem?_eq_none (by omega)
      rw [if_neg h2, if_neg h1, if_neg h1, List.getElem?_append_right (by omega), h3,
        Option.getD_none, Nat.sub_sub]

end Library
