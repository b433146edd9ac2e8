import Axon.Library.Window
import Mathlib.Data.Int.Basic
import Mathlib.Tactic.SplitIfs

/-!
# Memory in both directions

A cursor that is moved by a length out of the memory itself may go back.  Here cells are at integer
addresses; what is at the cursor and behind it is a block in the sense of `Window`.

* `ahead m p` — the block from `p` on, and `replaceAhead m p w` — the memory with this block
  replaced.
* `put m p bs` — the memory after `bs` has been copied to `p`.
* **`Shows m p bs`** — the list `bs` is what the memory holds from `p` on.
* **`shows_append`**, **`shows_put`**, **`put_append`** — lists one behind the other.
-/

namespace Library

variable {α : Type}

/-- The cells from `p` on. -/
def ahead (m : ℤ → α) (p : ℤ) : ℕ → α := fun i => m (p + i)

/-- The memory with the cells from `p` on replaced. -/
def replaceAhead (m : ℤ → α) (p : ℤ) (w : ℕ → α) : ℤ → α :=
  fun a => if p ≤ a then w (a - p).toNat else m a

/-- The memory after `bs` has been copied to `p`. -/
def put (m : ℤ → α) (p : ℤ) (bs : List α) : ℤ → α :=
  fun a => if p ≤ a then (bs[(a - p).toNat]?).getD (m a) else m a

/-- **The memory holds `bs`** from `p` on. -/
def Shows (m : ℤ → α) (p : ℤ) (bs : List α) : Prop := window (ahead m p) 0 bs.length = bs

variable {m m' : ℤ → α} {p : ℤ} {as bs : List α}

lemma window_ahead (m : ℤ → α) (p : ℤ) (k n : ℕ) :
    window (ahead m p) k n = window (ahead m (p + k)) 0 n := by
  refine window_congr fun i _ => ?_
  simp only [ahead]
  congr 1
  omega

/-- A copy to the block at the cursor. -/
lemma replaceAhead_blit (m : ℤ → α) (p : ℤ) (bs : List α) :
    replaceAhead m p (blit (ahead m p) 0 bs) = put m p bs := by
  funext a
  simp only [replaceAhead, put, blit, ahead, Nat.not_lt_zero, if_false, Nat.sub_zero]
  split_ifs with ha
  · rw [Int.toNat_of_nonneg (Int.sub_nonneg_of_le ha), add_sub_cancel]
  · rfl

lemma put_of_lt {a : ℤ} (h : a < p) : put m p bs a = m a := if_neg (Int.not_le.mpr h)

lemma put_of_le {a : ℤ} (h : p + bs.length ≤ a) : put m p bs a = m a := by
  rw [put, List.getElem?_eq_none (by omega), Option.getD_none, ite_self]

@[simp] lemma put_nil (m : ℤ → α) (p : ℤ) : put m p [] = m := by
  funext a
  simp [put]

lemma put_singleton (m : ℤ → α) (p : ℤ) (b : α) : put m p [b] = Function.update m p b := by
  funext a
  rcases lt_trichotomy a p with ha | rfl | ha
  · rw [put_of_lt ha, Function.update_of_ne (ne_of_lt ha)]
  · simp [put]
  · have hle : p + ([b].length : ℕ) ≤ a := ha
    rw [put_of_le hle, Function.update_of_ne (ne_of_gt ha)]

/-- **Two copies one behind the other** are one. -/
lemma put_append (m : ℤ → α) (p : ℤ) (as bs : List α) :
    put (put m p as) (p + as.length) bs = put m p (as ++ bs) := by
  funext a
  simp only [put]
  by_cases hp : p ≤ a
  · rw [if_pos hp, if_pos hp]
    by_cases ha : p + as.length ≤ a
    · have hnone : as[(a - p).toNat]? = none := List.getElem?_eq_none (by omega)
      rw [if_pos ha, hnone, Option.getD_none, List.getElem?_append_right (by omega)]
      congr 2
      omega
    · rw [if_neg ha, List.getElem?_append_left (by omega)]
  · rw [if_neg (by omega), if_neg hp, if_neg hp]

lemma Shows.get (h : Shows m p bs) {i : ℕ} (hi : i < bs.length) : m (p + i) = bs[i] := by
  have hcell : (window (ahead m p) 0 bs.length)[i]? = bs[i]? := by rw [show _ = bs from h]
  obtain ⟨r, hr⟩ := Nat.exists_eq_add_of_lt hi
  rw [List.getElem?_eq_getElem hi, hr, Nat.add_assoc, window_append,
    List.getElem?_append_right (by simp), length_window, Nat.sub_self, Nat.zero_add] at hcell
  exact Option.some.inj hcell

/-- What is held depends only on the cells it is in. -/
lemma Shows.congr (h : Shows m p bs) (hm : ∀ a, p ≤ a → a < p + bs.length → m' a = m a) :
    Shows m' p bs := by
  refine Eq.trans (window_congr fun i hi => ?_) h
  simp only [ahead]
  exact hm _ (by omega) (by omega)

/-- **A list splits anywhere.** -/
lemma shows_append : Shows m p (as ++ bs) ↔ Shows m p as ∧ Shows m (p + as.length) bs := by
  rw [Shows, List.length_append, window_append, Nat.zero_add, window_ahead m p as.length]
  constructor
  · exact fun h => List.append_inj h (by simp)
  · rintro ⟨has, hbs⟩
    rw [Shows] at has hbs
    rw [has, hbs]

/-- Of two lists that are held from the same place on, one is the beginning of the other. -/
lemma Shows.comparable (ha : Shows m p as) (hb : Shows m p bs) :
    ∃ cs ds, as ++ cs = bs ++ ds := by
  rw [Shows] at ha hb
  rcases Nat.le_total as.length bs.length with hle | hle
  · obtain ⟨k, hk⟩ := Nat.exists_eq_add_of_le hle
    refine ⟨window (ahead m p) (0 + as.length) k, [], ?_⟩
    rw [hk, window_append, ha] at hb
    rw [hb, List.append_nil]
  · obtain ⟨k, hk⟩ := Nat.exists_eq_add_of_le hle
    refine ⟨[], window (ahead m p) (0 + bs.length) k, ?_⟩
    rw [hk, window_append, hb] at ha
    rw [ha, List.append_nil]

/-- **What was copied is there.** -/
lemma shows_put (m : ℤ → α) (p : ℤ) (bs : List α) : Shows (put m p bs) p bs := by
  have hahead : ahead (put m p bs) p = blit (ahead m p) 0 bs := by
    rw [← replaceAhead_blit]
    funext i
    simp [ahead, replaceAhead]
  rw [Shows, hahead]
  exact window_blit_self _ 0 bs

end Library
