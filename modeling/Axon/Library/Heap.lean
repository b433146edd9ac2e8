import Mathlib.Data.List.Nodup
import Mathlib.Data.List.Perm.Subperm
import Mathlib.Logic.Function.Basic

/-!
# Heaps of records

Storage for records that are reached through pointers.  An address is a number; a record is there
from the moment it is allocated until it is given back.

* **`Heap`** : the records alive, below a bound on their addresses.
* **`Heap.put`**, **`Heap.free`**, **`Heap.write`**, **`Heap.writeAt`** : allocation, deallocation,
  assignment to a field, and assignment through a pointer that may be null.
* **`Heap.field`** : one pointer field of all records, as a function of the address.  Two structures
  threaded through the same records are told apart by their fields.
* **`Allocator`** : any policy for choosing the address of a new record that chooses a free one.
-/

namespace Library

/-- Assignment at a point that may be absent. -/
def setAt {α β : Type*} [DecidableEq α] (f : α → β) : Option α → β → α → β
  | none, _ => f
  | some a, v => Function.update f a v

@[simp] lemma setAt_none {α β : Type*} [DecidableEq α] (f : α → β) (v : β) :
    setAt f none v = f := rfl

@[simp] lemma setAt_some {α β : Type*} [DecidableEq α] (f : α → β) (a : α) (v : β) :
    setAt f (some a) v = Function.update f a v := rfl

lemma setAt_apply_of_ne {α β : Type*} [DecidableEq α] {f : α → β} {p : Option α} {v : β} {b : α}
    (h : p ≠ some b) : setAt f p v b = f b := by
  cases p with
  | none => rfl
  | some a => exact Function.update_of_ne (fun hb => h (congrArg some hb.symm)) v f

/-- The records alive, by address. -/
structure Heap (ε : Type*) where
  /-- The record at an address. -/
  cell : ℕ → Option ε
  /-- All records are below this address. -/
  bound : ℕ
  cell_of_bound_le : ∀ a, bound ≤ a → cell a = none

namespace Heap

variable {ε β : Type*}

/-- The heap with no records. -/
def empty : Heap ε := ⟨fun _ => none, 0, fun _ _ => rfl⟩

/-- A record is at this address. -/
def Live (h : Heap ε) (a : ℕ) : Prop := h.cell a ≠ none

instance (h : Heap ε) (a : ℕ) : Decidable (h.Live a) :=
  inferInstanceAs (Decidable (h.cell a ≠ none))

/-- Allocates a record at the address `a`. -/
def put (h : Heap ε) (a : ℕ) (e : ε) : Heap ε where
  cell := Function.update h.cell a (some e)
  bound := max h.bound (a + 1)
  cell_of_bound_le b hb := by
    rw [Function.update_of_ne (by omega)]
    exact h.cell_of_bound_le b (by omega)

/-- Gives the record at the address `a` back. -/
def free (h : Heap ε) (a : ℕ) : Heap ε where
  cell := Function.update h.cell a none
  bound := h.bound
  cell_of_bound_le b hb := by
    rcases eq_or_ne b a with rfl | hne
    · exact Function.update_self ..
    · rw [Function.update_of_ne hne]
      exact h.cell_of_bound_le b hb

/-- Assigns to the record at the address `a`, if one is there. -/
def write (h : Heap ε) (a : ℕ) (f : ε → ε) : Heap ε where
  cell := Function.update h.cell a ((h.cell a).map f)
  bound := h.bound
  cell_of_bound_le b hb := by
    rcases eq_or_ne b a with rfl | hne
    · rw [Function.update_self, h.cell_of_bound_le b hb]
      rfl
    · rw [Function.update_of_ne hne]
      exact h.cell_of_bound_le b hb

/-- Assigns through a pointer that may be null. -/
def writeAt (h : Heap ε) : Option ℕ → (ε → ε) → Heap ε
  | none, _ => h
  | some a, f => h.write a f

/-- The pointer field `φ` of all records; null where there is no record. -/
def field (φ : ε → Option β) (h : Heap ε) (a : ℕ) : Option β := (h.cell a).bind φ

@[simp] lemma cell_free_self (h : Heap ε) (a : ℕ) : (h.free a).cell a = none :=
  Function.update_self ..

lemma cell_free_of_ne {h : Heap ε} {a b : ℕ} (hne : b ≠ a) : (h.free a).cell b = h.cell b :=
  Function.update_of_ne hne ..

@[simp] lemma cell_put_self (h : Heap ε) (a : ℕ) (e : ε) : (h.put a e).cell a = some e :=
  Function.update_self ..

lemma cell_put_of_ne {h : Heap ε} {a b : ℕ} {e : ε} (hne : b ≠ a) :
    (h.put a e).cell b = h.cell b :=
  Function.update_of_ne hne ..

/-! ## Liveness -/

lemma Live.lt_bound {h : Heap ε} {a : ℕ} (ha : h.Live a) : a < h.bound := by
  by_contra hb
  exact ha (h.cell_of_bound_le a (Nat.le_of_not_lt hb))

lemma live_iff {h : Heap ε} {a : ℕ} : h.Live a ↔ ∃ e, h.cell a = some e :=
  Option.ne_none_iff_exists'

@[simp] lemma live_put {h : Heap ε} {a b : ℕ} {e : ε} :
    (h.put a e).Live b ↔ b = a ∨ h.Live b := by
  rcases eq_or_ne b a with rfl | hne
  · simp [Live, put]
  · simp [Live, put, hne]

@[simp] lemma live_free {h : Heap ε} {a b : ℕ} : (h.free a).Live b ↔ b ≠ a ∧ h.Live b := by
  rcases eq_or_ne b a with rfl | hne
  · simp [Live, free]
  · simp [Live, free, hne]

@[simp] lemma live_write {h : Heap ε} {a b : ℕ} {f : ε → ε} :
    (h.write a f).Live b ↔ h.Live b := by
  rcases eq_or_ne b a with rfl | hne
  · simp [Live, write]
  · simp [Live, write, Function.update_of_ne hne]

@[simp] lemma live_writeAt {h : Heap ε} {p : Option ℕ} {b : ℕ} {f : ε → ε} :
    (h.writeAt p f).Live b ↔ h.Live b := by
  cases p with
  | none => rfl
  | some a => exact live_write

/-- There are no more records than addresses below the bound. -/
lemma length_le_bound {h : Heap ε} {l : List ℕ} (hl : l.Nodup) (hlive : ∀ a ∈ l, h.Live a) :
    l.length ≤ h.bound := by
  have hsub : l ⊆ List.range h.bound :=
    fun a ha => List.mem_range.mpr (hlive a ha).lt_bound
  calc l.length ≤ (List.range h.bound).length := (hl.subperm hsub).length_le
    _ = h.bound := List.length_range

/-! ## Fields after an assignment -/

section Fields

variable {φ : ε → Option β} {h : Heap ε} {a : ℕ} {f : ε → ε}

/-- The assignment sets the field. -/
lemma field_write_eq {v : Option β} (hf : ∀ e, φ (f e) = v) (ha : h.Live a) :
    field φ (h.write a f) = Function.update (field φ h) a v := by
  obtain ⟨e, he⟩ := live_iff.mp ha
  funext b
  rcases eq_or_ne b a with rfl | hne
  · simp [field, write, he, hf]
  · simp [field, write, Function.update_of_ne hne]

/-- The assignment is to another field. -/
lemma field_write_same (hf : ∀ e, φ (f e) = φ e) : field φ (h.write a f) = field φ h := by
  funext b
  rcases eq_or_ne b a with rfl | hne
  · cases hb : h.cell b with
    | none => simp [field, write, hb]
    | some e => simp [field, write, hb, hf]
  · simp [field, write, Function.update_of_ne hne]

lemma field_writeAt_eq {p : Option ℕ} {v : Option β} (hf : ∀ e, φ (f e) = v)
    (hp : ∀ b, p = some b → h.Live b) :
    field φ (h.writeAt p f) = setAt (field φ h) p v := by
  cases p with
  | none => rfl
  | some b => exact field_write_eq hf (hp b rfl)

lemma field_writeAt_same {p : Option ℕ} (hf : ∀ e, φ (f e) = φ e) :
    field φ (h.writeAt p f) = field φ h := by
  cases p with
  | none => rfl
  | some b => exact field_write_same hf

lemma field_put {e : ε} : field φ (h.put a e) = Function.update (field φ h) a (φ e) := by
  funext b
  rcases eq_or_ne b a with rfl | hne
  · simp [field, put]
  · simp [field, put, Function.update_of_ne hne]

lemma field_free : field φ (h.free a) = Function.update (field φ h) a none := by
  funext b
  rcases eq_or_ne b a with rfl | hne
  · simp [field, free]
  · simp [field, free, Function.update_of_ne hne]

/-- Giving back a record whose field is null already. -/
lemma field_free_of_none (ha : field φ h a = none) : field φ (h.free a) = field φ h := by
  rw [field_free]
  exact Function.update_eq_self_iff.mpr ha.symm

end Fields

end Heap

/-- A policy that chooses the address of a new record among the free ones. -/
structure Allocator (ε : Type*) where
  /-- The address chosen. -/
  new : Heap ε → ℕ
  fresh : ∀ h : Heap ε, ¬ h.Live (new h)

/-- The policy that never uses an address again, from the address `k` on. -/
def Allocator.above (ε : Type*) (k : ℕ) : Allocator ε where
  new h := max h.bound k
  fresh h ha := by
    have := ha.lt_bound
    omega

end Library
