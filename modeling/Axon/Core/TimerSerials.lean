import Axon.Core.Timer

/-!
# Handles and the calls they come from

`handle_` is an `int` that every `add_timer` increments, and that starts again at 1 when it would
leave the positive range: the handles come round after `2 ^ 31 - 1` calls.

* **`EvTimer.handleOf`** : the handle of the `n`-th call of `add_timer`.
* **`EvTimer.adds`**, **`EvTimer.pendingAdds`** : how many of these calls a trace has, and which of
  them are of timers that are still pending.
* **`EvTimer.Unclashed`** : the next handle has come round to none of these.
-/

namespace Axon

namespace EvTimer

/-- The handle `add_timer` returns in its `n`-th call. -/
def handleOf (n : ℕ) : ℤ := if n = 0 then 0 else ((n - 1) % (2 ^ 31 - 1) : ℕ) + 1

lemma handleOf_succ (n : ℕ) : handleOf (n + 1) = (n % (2 ^ 31 - 1) : ℕ) + 1 := by
  rw [handleOf, if_neg (Nat.succ_ne_zero n), Nat.add_sub_cancel]

lemma handleOf_eq_self {n : ℕ} (h : n < 2 ^ 31) : handleOf n = n := by
  cases n with
  | zero => rfl
  | succ n =>
      rw [handleOf_succ, Nat.mod_eq_of_lt (by omega)]
      rfl

lemma nextHandle_handleOf (n : ℕ) : nextHandle (handleOf n) = handleOf (n + 1) := by
  cases n with
  | zero => rfl
  | succ n =>
      have hmod := Nat.add_mod n 1 (2 ^ 31 - 1)
      have hlt := Nat.mod_lt n (show 0 < 2 ^ 31 - 1 by decide)
      rw [handleOf_succ, handleOf_succ, nextHandle]
      split_ifs with hround <;> omega

/-- Handles come round. -/
lemma handleOf_eq_iff {s n : ℕ} (hs : 0 < s) (hle : s ≤ n) :
    handleOf n = handleOf s ↔ 2 ^ 31 - 1 ∣ n - s := by
  obtain ⟨s, rfl⟩ := Nat.exists_eq_succ_of_ne_zero (Nat.ne_of_gt hs)
  obtain ⟨n, rfl⟩ := Nat.exists_eq_succ_of_ne_zero (Nat.ne_of_gt (Nat.lt_of_lt_of_le hs hle))
  rw [Nat.succ_eq_add_one, Nat.succ_eq_add_one, handleOf_succ, handleOf_succ]
  omega

/-- What one event does to the number of `add_timer` calls and to the pending timers, each with the
number of its call and its handle. -/
def serialStep : ℕ × List (ℕ × ℤ) → TimerEvent → ℕ × List (ℕ × ℤ)
  | (n, l), .added _ _ h _ _ => (n + 1, (n + 1, h) :: l)
  | (n, l), .deleted h ret => (n, if ret = 0 then l.filter fun x => x.2 ≠ h else l)
  | (n, l), .fired .. => (n, l)
  | (n, l), .freed h => (n, l.filter fun x => x.2 ≠ h)

/-- The timers of a trace by the numbers of their calls. -/
def serials (tr : List TimerEvent) : ℕ × List (ℕ × ℤ) := tr.foldl serialStep (0, [])

/-- The number of `add_timer` calls. -/
def adds (tr : List TimerEvent) : ℕ := (serials tr).1

/-- The pending timers, with the numbers of their calls. -/
def pendingAdds (tr : List TimerEvent) : List (ℕ × ℤ) := (serials tr).2

/-- **No clash**: no timer still pending was added a multiple of `2 ^ 31 - 1` calls before the next
one. -/
def Unclashed (tr : List TimerEvent) : Prop :=
  ∀ x ∈ pendingAdds tr, ¬ 2 ^ 31 - 1 ∣ adds tr + 1 - x.1

section Serials

variable {tr evs : List TimerEvent} {now timeout : ℕ} {h : ℤ} {cbfunc data : Option ℕ}

@[simp] lemma pendingAdds_nil : pendingAdds [] = [] := rfl

lemma serials_append : serials (tr ++ evs) = evs.foldl serialStep (serials tr) :=
  List.foldl_append ..

@[simp] lemma adds_added : adds (tr ++ [.added now timeout h cbfunc data]) = adds tr + 1 := by
  rw [adds, serials_append]
  rfl

@[simp] lemma pendingAdds_added :
    pendingAdds (tr ++ [.added now timeout h cbfunc data]) =
      (adds tr + 1, h) :: pendingAdds tr := by
  rw [pendingAdds, serials_append]
  rfl

@[simp] lemma serials_deleted_none : serials (tr ++ [.deleted h (-1)]) = serials tr := by
  rw [serials_append]
  rfl

@[simp] lemma serials_deleted : serials (tr ++ [.deleted h 0]) =
    (adds tr, (pendingAdds tr).filter fun x => x.2 ≠ h) := by
  rw [serials_append]
  rfl

lemma serials_fired (hevs : ∀ e ∈ evs, ∃ now cb h d, e = .fired now cb h d) :
    serials (tr ++ evs) = serials tr := by
  rw [serials_append]
  induction evs with
  | nil => rfl
  | cons e evs ih =>
      obtain ⟨now, cb, h, d, rfl⟩ := hevs e List.mem_cons_self
      exact ih fun e' he' => hevs e' (List.mem_cons_of_mem _ he')

lemma serials_freed (hs : List ℤ) : serials (tr ++ hs.map .freed) =
    (adds tr, (pendingAdds tr).filter fun x => x.2 ∉ hs) := by
  induction hs generalizing tr with
  | nil => simp [adds, pendingAdds]
  | cons h hs ih =>
      have hstep : serials (tr ++ [.freed h]) =
          (adds tr, (pendingAdds tr).filter fun x => x.2 ≠ h) := by
        rw [serials_append]
        rfl
      rw [List.map_cons, List.append_cons, ih, adds, pendingAdds, hstep, List.filter_filter]
      simp [Bool.and_comm]

/-- While fewer than `2 ^ 31` timers are added no handle comes round. -/
lemma unclashed_of_lt (hserial : ∀ x ∈ pendingAdds tr, 0 < x.1 ∧ x.1 ≤ adds tr)
    (hlt : adds tr + 1 < 2 ^ 31) : Unclashed tr := by
  intro x hx hdvd
  obtain ⟨hpos, hle⟩ := hserial x hx
  have := Nat.le_of_dvd (by omega) hdvd
  omega

end Serials

end EvTimer

end Axon
