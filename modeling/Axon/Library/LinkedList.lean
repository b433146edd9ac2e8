import Axon.Library.Heap

/-!
# Linked lists

Lists threaded through the nodes by link fields, given as functions of the node.

* **`Chain`** : following `next` from a head visits exactly these nodes, then comes to null.
* **`Path`** : following `next` from a node visits exactly these nodes, up to a last one.
* **`Back`** : `prev` leads from each of these nodes to the one before it.
* **`Links`**, **`DList`** : the two fields of a doubly linked list, and both facts together.
* **`Links.insertHead`**, **`Links.unlink`**, **`Links.detach`** : insertion in front and removal in
  place, with what they do to the list and that they leave every disjoint list alone.
-/

namespace Library

variable {α : Type*}

/-- Following `next` from `head` visits the nodes of the list in order, then comes to null. -/
def Chain (next : α → Option α) : Option α → List α → Prop
  | head, [] => head = none
  | head, a :: l => head = some a ∧ Chain next (next a) l

/-- Following `next` from a node visits the nodes of the list in order, the last of them `last`. -/
inductive Path (next : α → Option α) (last : α) : α → List α → Prop where
  | stop : Path next last last [last]
  | step {a b : α} {l : List α} (hne : a ≠ last) (hnext : next a = some b)
      (h : Path next last b l) : Path next last a (a :: l)

/-- `prev` of each node is the node before it, and of the first one it is `before`. -/
def Back (prev : α → Option α) : Option α → List α → Prop
  | _, [] => True
  | before, a :: l => prev a = before ∧ Back prev (some a) l

section Chain

variable {next next' : α → Option α} {head : Option α} {a b : α} {l l₁ l₂ : List α}

lemma Chain.head_eq (h : Chain next head l) : head = l.head? := by
  cases l with
  | nil => exact h
  | cons a l => exact h.1

lemma Chain.eq_nil (h : Chain next none l) : l = [] := by
  cases l with
  | nil => rfl
  | cons a l => exact absurd h.1 nofun

/-- A path that starts at its last node. -/
lemma Path.eq_singleton (h : Path next a a l) : l = [a] := by
  cases h with
  | stop => rfl
  | step hne _ _ => exact absurd rfl hne

/-- A chain only depends on the links of its own nodes. -/
lemma Chain.congr (h : Chain next head l) (heq : ∀ a ∈ l, next' a = next a) :
    Chain next' head l := by
  induction l generalizing head with
  | nil => exact h
  | cons a l ih =>
      refine ⟨h.1, ?_⟩
      rw [heq a List.mem_cons_self]
      exact ih h.2 fun b hb => heq b (List.mem_cons_of_mem a hb)

/-- A head starts one chain only. -/
lemma Chain.unique (h₁ : Chain next head l₁) (h₂ : Chain next head l₂) : l₁ = l₂ := by
  induction l₁ generalizing head l₂ with
  | nil =>
      cases l₂ with
      | nil => rfl
      | cons b l₂ => exact absurd (h₁.symm.trans h₂.1) (by simp)
  | cons a l₁ ih =>
      cases l₂ with
      | nil => exact absurd (h₂.symm.trans h₁.1) (by simp)
      | cons b l₂ =>
          obtain rfl := Option.some.inj (h₁.1.symm.trans h₂.1)
          rw [ih h₁.2 h₂.2]

/-- The rest of a chain is a chain. -/
lemma Chain.suffix (h : Chain next head (l₁ ++ a :: l₂)) : Chain next (some a) (a :: l₂) := by
  induction l₁ generalizing head with
  | nil => exact ⟨rfl, h.2⟩
  | cons b l₁ ih => exact ih h.2

lemma Chain.next_eq (h : Chain next head (l₁ ++ a :: l₂)) : next a = l₂.head? :=
  (h.suffix.2).head_eq

/-- A chain visits no node twice: the second visit would be followed by what follows the first. -/
lemma Chain.nodup (h : Chain next head l) : l.Nodup := by
  induction l generalizing head with
  | nil => exact List.nodup_nil
  | cons a l ih =>
      refine List.nodup_cons.mpr ⟨fun hmem => ?_, ih h.2⟩
      obtain ⟨l₁, l₂, rfl⟩ := List.append_of_mem hmem
      have hl := congrArg List.length (h.2.unique h.2.suffix.2)
      simp at hl
      omega

variable [DecidableEq α]

/-- A link of a node outside a chain may change. -/
lemma Chain.update (h : Chain next head l) (ha : a ∉ l) (v : Option α) :
    Chain (Function.update next a v) head l :=
  h.congr fun b hb =>
    Function.update_of_ne (fun he : b = a => ha (he ▸ hb)) v next

/-- **Insertion in front** of a chain. -/
lemma Chain.insertHead (h : Chain next head l) (ha : a ∉ l) :
    Chain (Function.update next a head) (some a) (a :: l) := by
  refine ⟨rfl, ?_⟩
  rw [Function.update_self]
  exact h.update ha head

/-- **Removal behind a node**: the node before the removed one takes over its link. -/
lemma Chain.remove_after (h : Chain next head (l₁ ++ b :: a :: l₂)) :
    Chain (Function.update next b (next a)) head (l₁ ++ b :: l₂) := by
  have hnd := h.nodup
  induction l₁ generalizing head with
  | nil =>
      obtain ⟨hhead, -, hchain⟩ := h
      refine ⟨hhead, ?_⟩
      rw [Function.update_self]
      refine hchain.update ?_ _
      simp only [List.nil_append, List.nodup_cons, List.mem_cons, not_or] at hnd
      exact hnd.1.2
  | cons c l₁ ih =>
      simp only [List.cons_append, List.nodup_cons] at hnd
      refine ⟨h.1, ?_⟩
      rw [Function.update_of_ne (fun hc => hnd.1 (by simp [hc]))]
      exact ih h.2 hnd.2

/-- Removal of any node, the first one included. -/
lemma Chain.remove (h : Chain next head (l₁ ++ a :: l₂)) :
    Chain (setAt next l₁.getLast? (next a)) (if l₁ = [] then next a else head) (l₁ ++ l₂) := by
  rcases List.eq_nil_or_concat l₁ with rfl | ⟨l₁, b, rfl⟩
  · exact h.2
  · rw [List.concat_append] at h ⊢
    have hne : l₁.concat b ≠ [] := by simp
    rw [if_neg hne, List.concat_eq_append, List.getLast?_concat]
    exact h.remove_after

end Chain

section Back

variable {prev prev' : α → Option α} {before : Option α} {a : α} {l l₁ l₂ : List α}

lemma Back.congr (h : Back prev before l) (heq : ∀ a ∈ l, prev' a = prev a) :
    Back prev' before l := by
  induction l generalizing before with
  | nil => trivial
  | cons a l ih =>
      refine ⟨(heq a List.mem_cons_self).trans h.1, ?_⟩
      exact ih h.2 fun b hb => heq b (List.mem_cons_of_mem a hb)

lemma Back.prev_eq (h : Back prev before (l₁ ++ a :: l₂)) :
    prev a = l₁.getLast?.or before := by
  induction l₁ generalizing before with
  | nil => exact h.1
  | cons b l₁ ih =>
      rw [ih h.2, List.getLast?_cons]
      cases l₁.getLast? <;> rfl

variable [DecidableEq α]

lemma Back.update (h : Back prev before l) (ha : a ∉ l) (v : Option α) :
    Back (Function.update prev a v) before l :=
  h.congr fun b hb =>
    Function.update_of_ne (fun he : b = a => ha (he ▸ hb)) v prev

/-- The first node gets another predecessor. -/
lemma Back.set_head (h : Back prev before l) (hnd : l.Nodup) (p : Option α) :
    Back (setAt prev l.head? p) p l := by
  cases l with
  | nil => trivial
  | cons a l =>
      refine ⟨Function.update_self .., ?_⟩
      exact Back.update h.2 (List.nodup_cons.mp hnd).1 p

lemma Back.remove (h : Back prev before (l₁ ++ a :: l₂)) (hnd : (l₁ ++ a :: l₂).Nodup) :
    Back (setAt prev l₂.head? (prev a)) before (l₁ ++ l₂) := by
  induction l₁ generalizing before with
  | nil =>
      obtain ⟨rfl, hback⟩ := h
      exact hback.set_head (List.nodup_cons.mp hnd).2 _
  | cons b l₁ ih =>
      simp only [List.cons_append, List.nodup_cons] at hnd
      refine ⟨?_, ih h.2 hnd.2⟩
      have hne : l₂.head? ≠ some b := fun hb =>
        hnd.1 (by simp [List.mem_of_head? hb])
      rw [setAt_apply_of_ne hne]
      exact h.1

end Back

/-- The two link fields of the nodes. -/
@[ext] structure Links (α : Type*) where
  /-- The field leading forward. -/
  next : α → Option α
  /-- The field leading back. -/
  prev : α → Option α

/-- **A doubly linked list**: the nodes from `head` on, with `next` and `prev` inverse to each other
and nothing before the head. -/
structure DList (L : Links α) (head : Option α) (l : List α) : Prop where
  chain : Chain L.next head l
  back : Back L.prev none l

namespace Links

variable [DecidableEq α]

/-- Puts `a` in front of the list that begins with `head`. -/
def insertHead (L : Links α) (head : Option α) (a : α) : Links α where
  next := Function.update L.next a head
  prev := Function.update (setAt L.prev head (some a)) a none

/-- Links the two neighbours of `a` to each other; the fields of `a` itself stay. -/
def unlink (L : Links α) (a : α) : Links α where
  next := setAt L.next (L.prev a) (L.next a)
  prev := setAt L.prev (L.next a) (L.prev a)

/-- Takes `a` out of the list it is in: its two neighbours are linked to each other. -/
def detach (L : Links α) (a : α) : Links α where
  next := Function.update (setAt L.next (L.prev a) (L.next a)) a none
  prev := Function.update (setAt L.prev (L.next a) (L.prev a)) a none

end Links

namespace DList

variable {L L' : Links α} {head : Option α} {a b : α} {l l₁ l₂ : List α}

lemma nodup (h : DList L head l) : l.Nodup := h.chain.nodup

lemma nil : DList L none [] := ⟨rfl, trivial⟩

lemma congr (h : DList L head l) (hn : ∀ a ∈ l, L'.next a = L.next a)
    (hp : ∀ a ∈ l, L'.prev a = L.prev a) : DList L' head l :=
  ⟨h.chain.congr hn, h.back.congr hp⟩

lemma prev_eq (h : DList L head (l₁ ++ a :: l₂)) : L.prev a = l₁.getLast? := by
  rw [h.back.prev_eq, Option.or_none]

lemma next_eq (h : DList L head (l₁ ++ a :: l₂)) : L.next a = l₂.head? := h.chain.next_eq

/-- The neighbours of a node are in its list. -/
lemma next_mem (h : DList L head l) (ha : a ∈ l) (hb : L.next a = some b) : b ∈ l := by
  obtain ⟨l₁, l₂, rfl⟩ := List.append_of_mem ha
  rw [h.next_eq] at hb
  simp [List.mem_of_head? hb]

lemma prev_mem (h : DList L head l) (ha : a ∈ l) (hb : L.prev a = some b) : b ∈ l := by
  obtain ⟨l₁, l₂, rfl⟩ := List.append_of_mem ha
  rw [h.prev_eq] at hb
  simp [List.mem_of_getLast? hb]

lemma head_mem (h : DList L head l) (hb : head = some b) : b ∈ l :=
  List.mem_of_head? (h.chain.head_eq ▸ hb)

/-- Only the head has no predecessor. -/
lemma head_eq_iff (h : DList L head (l₁ ++ a :: l₂)) : head = some a ↔ l₁ = [] := by
  rw [h.chain.head_eq]
  cases l₁ with
  | nil => simp
  | cons b l₁ =>
      have hnd := h.nodup
      simp only [List.cons_append, List.nodup_cons, List.mem_append, List.mem_cons, not_or] at hnd
      simpa using hnd.1.2.1

/-- `next` and `prev` are inverse to each other along the list. -/
lemma next_eq_iff (h : DList L head l) (ha : a ∈ l) (hb : b ∈ l) :
    L.next a = some b ↔ L.prev b = some a := by
  constructor
  · intro hnext
    obtain ⟨l₁, l₂, rfl⟩ := List.append_of_mem ha
    rw [h.next_eq] at hnext
    obtain ⟨l₃, rfl⟩ := List.head?_eq_some_iff.mp hnext
    rw [List.append_cons] at h
    rw [h.prev_eq, List.getLast?_concat]
  · intro hprev
    obtain ⟨l₁, l₂, rfl⟩ := List.append_of_mem hb
    rw [h.prev_eq] at hprev
    obtain ⟨l₃, rfl⟩ := List.getLast?_eq_some_iff.mp hprev
    rw [List.append_assoc] at h
    exact h.next_eq

variable [DecidableEq α]

/-- **Insertion in front.** -/
lemma insertHead (h : DList L head l) (ha : a ∉ l) :
    DList (L.insertHead head a) (some a) (a :: l) := by
  refine ⟨h.chain.insertHead ha, Function.update_self .., ?_⟩
  rw [h.chain.head_eq]
  exact Back.update (h.back.set_head h.nodup _) ha none

/-- Insertion leaves the nodes of other lists alone. -/
lemma insertHead_frame (h : DList L head l) (hb : b ∉ a :: l) :
    (L.insertHead head a).next b = L.next b ∧ (L.insertHead head a).prev b = L.prev b := by
  have hne : b ≠ a := fun he => hb (he ▸ List.mem_cons_self)
  refine ⟨Function.update_of_ne hne .., (Function.update_of_ne hne ..).trans ?_⟩
  exact setAt_apply_of_ne fun he => hb (List.mem_cons_of_mem a (h.head_mem he))

/-- **Removal in place.**  The head moves on when it is the head that is removed. -/
lemma unlink (h : DList L head l) (ha : a ∈ l) :
    DList (L.unlink a) (if head = some a then L.next a else head) (l.erase a) := by
  have hnd := h.nodup
  obtain ⟨l₁, l₂, rfl⟩ := List.append_of_mem ha
  have hnot : a ∉ l₁ ++ l₂ := (List.nodup_middle.mp hnd |> List.nodup_cons.mp).1
  have herase : (l₁ ++ a :: l₂).erase a = l₁ ++ l₂ := by
    rw [List.erase_append_right _ (fun hm => hnot (List.mem_append_left _ hm)),
      List.erase_cons_head]
  rw [herase]
  constructor
  · have hchain := h.chain.remove
    rw [← h.prev_eq] at hchain
    simp only [h.head_eq_iff]
    exact hchain
  · have hback := h.back.remove hnd
    rw [← h.next_eq] at hback
    exact hback

/-- Removal in place, where the node removed loses its own links. -/
lemma detach (h : DList L head l) (ha : a ∈ l) :
    DList (L.detach a) (if head = some a then L.next a else head) (l.erase a) := by
  have hnot : a ∉ l.erase a := h.nodup.not_mem_erase
  exact ⟨(h.unlink ha).chain.update hnot none, (h.unlink ha).back.update hnot none⟩

/-- Removal leaves the nodes of other lists alone. -/
lemma detach_frame (h : DList L head l) (ha : a ∈ l) (hb : b ∉ l) :
    (L.detach a).next b = L.next b ∧ (L.detach a).prev b = L.prev b := by
  have hne : b ≠ a := fun he => hb (he ▸ ha)
  refine ⟨(Function.update_of_ne hne ..).trans ?_, (Function.update_of_ne hne ..).trans ?_⟩
  · exact setAt_apply_of_ne fun he => hb (h.prev_mem ha he)
  · exact setAt_apply_of_ne fun he => hb (h.next_mem ha he)

end DList

end Library
