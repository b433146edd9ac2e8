import Mathlib.Data.List.Basic

/-!
# Incremental framing of a stream

A receiver of a byte stream keeps the bytes it could not use yet, appends whatever arrives, and cuts
complete frames off the front until none is left.  The rule that cuts off one frame is an
`Extractor`; the only thing asked of it is that a frame, once complete, stays the same frame
whatever follows it.

* `Extractor.drain` — cut off frames until none is complete; the frames and the rest.
* **`Extractor.drain_append`** — draining commutes with the arrival of more data, so how the stream
  was cut up does not matter.
-/

namespace Library

/-- A rule that cuts one frame off the front of a stream, or finds that it has to wait. -/
structure Extractor (α β : Type) where
  step : List α → Option (β × List α)
  /-- A frame consumes something. -/
  shrinks : ∀ {bs : List α} {f : β} {rest : List α}, step bs = some (f, rest) →
    rest.length < bs.length
  /-- A complete frame does not depend on what follows it. -/
  stable : ∀ {bs : List α} {f : β} {rest : List α} (more : List α), step bs = some (f, rest) →
    step (bs ++ more) = some (f, rest ++ more)

namespace Extractor

variable {α β : Type} (E : Extractor α β)

/-- Cut off at most `n` frames. -/
def drainN : ℕ → List α → List β × List α
  | 0, bs => ([], bs)
  | n + 1, bs =>
      match E.step bs with
      | none => ([], bs)
      | some (f, rest) => (f :: (drainN n rest).1, (drainN n rest).2)

/-- Cut off frames until none is complete.  Every frame consumes something, so there are no more of
them than elements in the stream. -/
def drain (bs : List α) : List β × List α := E.drainN bs.length bs

/-- Any bound at least the length is as good as the length. -/
lemma drainN_eq_drain : ∀ (n : ℕ) (bs : List α), bs.length ≤ n → E.drainN n bs = E.drain bs := by
  suffices h : ∀ (m n : ℕ) (bs : List α), bs.length ≤ m → bs.length ≤ n →
      E.drainN n bs = E.drainN m bs from
    fun n bs hn => h bs.length n bs (Nat.le_refl _) hn
  intro m
  induction m with
  | zero =>
      intro n bs hm hn
      cases n with
      | zero => rfl
      | succ n =>
          rw [drainN, drainN]
          cases hs : E.step bs with
          | none => rfl
          | some p =>
              obtain ⟨f, rest⟩ := p
              have := E.shrinks hs
              omega
  | succ m ih =>
      intro n bs hm hn
      cases hs : E.step bs with
      | none => cases n <;> simp [drainN, hs]
      | some p =>
          obtain ⟨f, rest⟩ := p
          have hlt := E.shrinks hs
          cases n with
          | zero => omega
          | succ n =>
              rw [drainN, drainN, hs]
              simp only
              rw [ih n rest (by omega) (by omega)]

lemma drain_of_none {bs : List α} (h : E.step bs = none) : E.drain bs = ([], bs) := by
  rw [drain]
  cases hn : bs.length <;> simp [drainN, h]

lemma drain_of_some {bs rest : List α} {f : β} (h : E.step bs = some (f, rest)) :
    E.drain bs = (f :: (E.drain rest).1, (E.drain rest).2) := by
  have hlt := E.shrinks h
  rw [← E.drainN_eq_drain (bs.length - 1 + 1) bs (by omega), drainN, h]
  simp only
  rw [E.drainN_eq_drain _ rest (by omega)]

/-- What is left after a drain is not a complete frame. -/
lemma step_drain_rest (bs : List α) : E.step (E.drain bs).2 = none := by
  induction hn : bs.length using Nat.strongRecOn generalizing bs with
  | ind n ih =>
      cases hs : E.step bs with
      | none => rw [E.drain_of_none hs, hs]
      | some p =>
          obtain ⟨f, rest⟩ := p
          rw [E.drain_of_some hs]
          exact ih rest.length (hn ▸ E.shrinks hs) rest rfl

/-- **Draining commutes with appending.**  The frames complete in the first part come out first, and
the rest of the first part is the beginning of what follows. -/
theorem drain_append (a b : List α) :
    E.drain (a ++ b) =
      ((E.drain a).1 ++ (E.drain ((E.drain a).2 ++ b)).1, (E.drain ((E.drain a).2 ++ b)).2) := by
  induction hn : a.length using Nat.strongRecOn generalizing a with
  | ind n ih =>
      cases hs : E.step a with
      | none => rw [E.drain_of_none hs]; simp
      | some p =>
          obtain ⟨f, rest⟩ := p
          have hlt := E.shrinks hs
          rw [E.drain_of_some (E.stable b hs), E.drain_of_some hs, ih _ (hn ▸ hlt) rest rfl]
          rfl

/-- Frames complete early stay the first frames. -/
lemma drain_prefix (a b : List α) : (E.drain a).1 <+: (E.drain (a ++ b)).1 := by
  rw [E.drain_append]
  exact List.prefix_append _ _

end Extractor

end Library
