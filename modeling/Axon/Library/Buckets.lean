import Axon.Library.LinkedList

/-!
# Families of chains

Singly linked lists that share one link field: the buckets of a table.

* **`Chains`** : from the head of each bucket the links visit exactly its nodes, and no node is in
  two buckets.
* **`Chains.push`**, **`Chains.removeHead`**, **`Chains.removeAfter`**, **`Chains.clear`** : what
  the assignments of a program do to one bucket.
* **`DList.insertHead_bucket`** : insertion into one bucket of a doubly linked table.
-/

namespace Library

variable {α ι : Type*}

/-- **Disjoint chains** that start at the heads. -/
structure Chains (next : α → Option α) (head : ι → Option α) (B : ι → List α) : Prop where
  chain : ∀ i, Chain next (head i) (B i)
  disjoint : ∀ i j a, a ∈ B i → a ∈ B j → i = j

/-- The members of the buckets after one of them has got a new first node. -/
lemma mem_update_cons [DecidableEq ι] {B : ι → List α} {i j : ι} {a x : α} :
    x ∈ Function.update B i (a :: B i) j ↔ (x = a ∧ i = j) ∨ x ∈ B j := by
  rcases eq_or_ne j i with rfl | hne
  · rw [Function.update_self, List.mem_cons]
    simp
  · rw [Function.update_of_ne hne]
    simp [hne.symm]

namespace Chains

variable {next next' : α → Option α} {head : ι → Option α} {B : ι → List α} {i : ι} {a b : α}
  {l l₁ l₂ : List α}

/-- The links of nodes outside all buckets do not matter. -/
lemma congr (h : Chains next head B) (heq : ∀ i, ∀ a ∈ B i, next' a = next a) :
    Chains next' head B :=
  ⟨fun i => (h.chain i).congr (heq i), h.disjoint⟩

variable [DecidableEq ι]

/-- Replacing one bucket by one that has no new nodes. -/
lemma replace (h : Chains next head B) {p : Option α} (hl : Chain next' p l) (hsub : l ⊆ B i)
    (heq : ∀ j, j ≠ i → ∀ a ∈ B j, next' a = next a) :
    Chains next' (Function.update head i p) (Function.update B i l) := by
  constructor
  · intro j
    rcases eq_or_ne j i with rfl | hne
    · rw [Function.update_self, Function.update_self]
      exact hl
    · rw [Function.update_of_ne hne, Function.update_of_ne hne]
      exact (h.chain j).congr (heq j hne)
  · have hmem : ∀ j a, a ∈ Function.update B i l j → a ∈ B j := by
      intro j a ha
      rcases eq_or_ne j i with rfl | hne
      · rw [Function.update_self] at ha
        exact hsub ha
      · rwa [Function.update_of_ne hne] at ha
    exact fun j k a hj hk => h.disjoint j k a (hmem j a hj) (hmem k a hk)

/-- The bucket is given up. -/
lemma clear (h : Chains next head B) (i : ι) :
    Chains next (Function.update head i none) (Function.update B i []) :=
  h.replace rfl (List.nil_subset _) fun _ _ _ _ => rfl

/-- The first node is taken out. -/
lemma removeHead (h : Chains next head B) (hB : B i = a :: l) :
    Chains next (Function.update head i (next a)) (Function.update B i l) := by
  have hc := h.chain i
  rw [hB] at hc
  exact h.replace hc.2 (fun x hx => hB ▸ List.mem_cons_of_mem a hx) fun _ _ _ _ => rfl

variable [DecidableEq α]

/-- A new node is put in front of a bucket. -/
lemma push (h : Chains next head B) (ha : ∀ j, a ∉ B j) (i : ι) :
    Chains (Function.update next a (head i)) (Function.update head i (some a))
      (Function.update B i (a :: B i)) := by
  constructor
  · intro j
    rcases eq_or_ne j i with rfl | hne
    · rw [Function.update_self, Function.update_self]
      exact (h.chain j).insertHead (ha j)
    · rw [Function.update_of_ne hne, Function.update_of_ne hne]
      exact (h.chain j).update (ha j) _
  · intro j k x hj hk
    rcases mem_update_cons.mp hj with ⟨rfl, rfl⟩ | hj' <;>
      rcases mem_update_cons.mp hk with ⟨hxa, rfl⟩ | hk'
    · rfl
    · exact absurd hk' (ha k)
    · exact absurd (hxa ▸ hj') (ha j)
    · exact h.disjoint j k x hj' hk'

/-- A node behind another one is taken out. -/
lemma removeAfter (h : Chains next head B) (hB : B i = l₁ ++ b :: a :: l₂) :
    Chains (Function.update next b (next a)) head (Function.update B i (l₁ ++ b :: l₂)) := by
  have hc := h.chain i
  rw [hB] at hc
  have hrep := h.replace hc.remove_after
    (by
      rw [hB]
      intro x hx
      simp only [List.mem_append, List.mem_cons] at hx ⊢
      tauto)
    (fun j hne x hx => Function.update_of_ne (fun he : x = b => hne (h.disjoint j i b (he ▸ hx)
      (by simp [hB]))) _ _)
  rwa [Function.update_eq_self] at hrep

end Chains

/-- **A node is put in front of one of several doubly linked lists** that share their links: the
others stay as they are.  `P` picks the lists that are there. -/
lemma DList.insertHead_bucket [DecidableEq α] [DecidableEq ι] {L : Links α} {head : ι → Option α}
    {B : ι → List α} {P : ι → Prop} {i : ι} {a : α} (h : ∀ j, P j → DList L (head j) (B j))
    (hi : P i) (ha : ∀ j, P j → a ∉ B j) (hdis : ∀ j, P j → j ≠ i → ∀ x ∈ B j, x ∉ B i) :
    ∀ j, P j → DList (L.insertHead (head i) a) (Function.update head i (some a) j)
      (Function.update B i (a :: B i) j) := by
  intro j hj
  rcases eq_or_ne j i with rfl | hne
  · rw [Function.update_self, Function.update_self]
    exact (h j hj).insertHead (ha j hj)
  · rw [Function.update_of_ne hne, Function.update_of_ne hne]
    have hframe : ∀ x ∈ B j, x ∉ a :: B i := by
      intro x hx hmem
      rcases List.mem_cons.mp hmem with rfl | hxi
      · exact ha j hj hx
      · exact hdis j hj hne x hx hxi
    exact (h j hj).congr (fun x hx => ((h i hi).insertHead_frame (hframe x hx)).1)
      (fun x hx => ((h i hi).insertHead_frame (hframe x hx)).2)

end Library
