import Axon.Core.ConnectSlots
import Axon.Library.LinkedList

/-!
# The iteration list of the container

The allocated connections are threaded on a list from `head_` through `next_` and `prev_`.

* **`ConnectContainer.links`** : the two link fields, as functions of the slot.
* **`ConnectContainer.ListsOpen`** : the list is finite, holds the allocated connections once each
  and no others, and its two directions agree.
* **`ConnectContainer.lists_open_of_run`** : so it is in every history that never frees the
  connection `head_` points at, and the first such free destroys it, because `free_connect` leaves
  `head_` where it is.
-/

namespace Axon

open Library

namespace ConnectContainer

/-- `next_` and `prev_` of all connections. -/
def links (t : ConnectContainer) : Links ℕ where
  next := fun i => (t.connects i).next
  prev := fun i => (t.connects i).prev

/-- **The iteration list is the set of open connections**: from `head_` through `next_` one comes to
`NULL`, past each allocated connection exactly once and past no other; `prev_` is the inverse of
`next_`, and `head_->prev_` is `NULL`. -/
def ListsOpen (t : ConnectContainer) (used : Finset ℕ) : Prop :=
  ∃ l : List ℕ, Chain t.links.next t.head l ∧ l.Nodup ∧ (∀ i, i ∈ l ↔ i ∈ used) ∧
    (∀ a ∈ l, ∀ b ∈ l, t.links.next a = some b ↔ t.links.prev b = some a) ∧
    ∀ a, t.head = some a → t.links.prev a = none

variable {t t' : ConnectContainer} {n : ℕ} {used : Finset ℕ} {os : Libc} {l : List ℕ}

lemma listsOpen_of_dlist (h : DList t.links t.head l) (hmem : ∀ i, i ∈ l ↔ i ∈ used) :
    ListsOpen t used := by
  refine ⟨l, h.chain, h.nodup, hmem, fun a ha b hb => h.next_eq_iff ha hb, fun a ha => ?_⟩
  obtain ⟨l₁, rfl⟩ := List.head?_eq_some_iff.mp (h.chain.head_eq ▸ ha)
  exact h.back.1

/-! ## What the operations do to the links -/

section Fields

variable {β : Type} (φ : Connect → β) {connects : ℕ → Connect} {p : Option ℕ}
  {f : Connect → Connect}

lemma update_field (i : ℕ) (c : Connect) :
    (fun j => φ (Function.update connects i c j)) =
      Function.update (fun j => φ (connects j)) i (φ c) := by
  funext j
  exact Function.apply_update (fun _ => φ) connects i c j

lemma setIf_field_same (hf : ∀ c, φ (f c) = φ c) :
    (fun i => φ (setIf connects p f i)) = fun i => φ (connects i) :=
  funext fun _ => setIf_field φ hf

lemma setIf_field_eq {v : β} (hf : ∀ c, φ (f c) = v) :
    (fun i => φ (setIf connects p f i)) = setAt (fun i => φ (connects i)) p v := by
  cases p with
  | none => rfl
  | some j =>
      rw [setIf, update_field, hf]
      rfl

end Fields

/-- A slot handed out is put in front of the list. -/
lemma links_enlist {i : ℕ} (c : Connect) (hi : t.head ≠ some i) :
    (t.enlist i c).links = t.links.insertHead t.head i := by
  ext1
  · rw [links, enlist]
    dsimp only
    rw [setIf_field_same Connect.next, update_field Connect.next]
    · rfl
    · exact fun _ => rfl
  · rw [links, enlist]
    dsimp only
    rw [setIf_field_eq Connect.prev (v := some i), update_field Connect.prev]
    · rw [Links.insertHead]
      cases hhead : t.head with
      | none => rfl
      | some h =>
          have hne : h ≠ i := fun heq => hi (heq ▸ hhead)
          exact Function.update_comm hne.symm none (some i) t.links.prev
    · exact fun _ => rfl

/-- A slot given back is unlinked from its neighbours; its own links stay. -/
lemma links_delist (t : ConnectContainer) (i : ℕ) : (t.delist i).links = t.links.unlink i := by
  -- the first assignment cannot change `c->next_`, also not through `c->prev_ == c`
  have hnext : (fun j => (setIf (Function.update t.connects i
      { t.connects i with status := connEmpty }) (t.connects i).prev (fun p =>
      { p with next := (t.connects i).next }) j).next) = (t.links.unlink i).next := by
    rw [setIf_field_eq Connect.next (v := (t.connects i).next), update_field Connect.next]
    · dsimp only
      rw [Function.update_eq_self]
      rfl
    · exact fun _ => rfl
  have hprev : (fun j => (setIf (Function.update t.connects i
      { t.connects i with status := connEmpty }) (t.connects i).prev (fun p =>
      { p with next := (t.connects i).next }) j).prev) = t.links.prev := by
    rw [setIf_field_same Connect.prev, update_field Connect.prev]
    · dsimp only
      rw [Function.update_eq_self]
      rfl
    · exact fun _ => rfl
  have hself : (t.links.unlink i).next i = t.links.next i := by
    rw [Links.unlink]
    cases t.links.prev i with
    | none => rfl
    | some j =>
        rcases eq_or_ne i j with rfl | hne
        · exact Function.update_self ..
        · exact Function.update_of_ne hne ..
  ext1
  · rw [links, delist]
    dsimp only
    rw [setIf_field_same Connect.next]
    · exact hnext
    · exact fun _ => rfl
  · rw [links, delist]
    dsimp only
    rw [setIf_field_eq Connect.prev (v := t.links.prev i), hprev]
    · rw [congrFun hnext i, hself]
      rfl
    · exact fun _ => congrFun hprev i

lemma links_setStatus (t : ConnectContainer) (i : ℕ) (status : ℤ) :
    (t.setStatus i status).links = t.links := by
  rw [links, ConnectContainer.setStatus]
  dsimp only
  rw [update_field Connect.next, update_field Connect.prev, Connect.setStatus,
    Function.update_eq_self, Function.update_eq_self]
  rfl

/-! ## The list over a history -/

/-- Handing a slot out puts it in front. -/
lemma dlist_enlist (h : DList t.links t.head l) {i : ℕ} (c : Connect) (hi : i ∉ l) :
    DList (t.enlist i c).links (t.enlist i c).head (i :: l) := by
  have hhead : t.head ≠ some i := fun heq => hi (h.head_mem heq)
  rw [links_enlist c hhead]
  exact h.insertHead hi

/-- Giving a slot back that is not the first one takes it out. -/
lemma dlist_delist (h : DList t.links t.head l) {i : ℕ} (hi : i ∈ l) (hhead : t.head ≠ some i) :
    DList (t.delist i).links (t.delist i).head (l.erase i) := by
  rw [links_delist]
  have hun := h.unlink hi
  rw [if_neg hhead] at hun
  exact hun

/-- Giving the first slot back leaves it at the head of the list. -/
lemma chain_delist_head (h : DList t.links t.head l) {i : ℕ} (hhead : t.head = some i) :
    Chain (t.delist i).links.next (t.delist i).head l := by
  obtain ⟨l₂, rfl⟩ := List.head?_eq_some_iff.mp (h.chain.head_eq ▸ hhead)
  rw [links_delist]
  have hprev : t.links.prev i = none := h.back.1
  rw [Links.unlink, hprev]
  exact h.chain

/-- **A history that never frees the connection `head_` points at**: allocations, frees of allocated
slots, and changes of the status of allocated connections. -/
inductive HeadSpared (n : ℕ) (mgr : Option ℕ) (rsize wsize : ℕ) :
    ConnectContainer → Finset ℕ → Prop
  | new (junk : ℕ → ℤ) :
      HeadSpared n mgr rsize wsize (ConnectContainer.new junk n mgr rsize wsize) ∅
  | alloc {t t' : ConnectContainer} {used : Finset ℕ} {os : Libc} {fd : ℤ} {i : ℕ}
      (h : HeadSpared n mgr rsize wsize t used)
      (hstep : t.allocConnect os fd = .ok (t', (i : ℤ))) :
      HeadSpared n mgr rsize wsize t' (insert i used)
  | refused {t t' : ConnectContainer} {used : Finset ℕ} {os : Libc} {fd v : ℤ}
      (h : HeadSpared n mgr rsize wsize t used) (hv : v < 0)
      (hstep : t.allocConnect os fd = .ok (t', v)) : HeadSpared n mgr rsize wsize t' used
  | free {t t' : ConnectContainer} {used : Finset ℕ} {i : ℕ}
      (h : HeadSpared n mgr rsize wsize t used) (hi : i ∈ used) (hhead : t.head ≠ some i)
      (hstep : t.freeConnect i = .ok t') : HeadSpared n mgr rsize wsize t' (used.erase i)
  | setStatus {t : ConnectContainer} {used : Finset ℕ} {i : ℕ}
      (h : HeadSpared n mgr rsize wsize t used) (hi : i ∈ used) (status : ℤ) :
      HeadSpared n mgr rsize wsize (t.setStatus i status) used

section Histories

variable {mgr : Option ℕ} {rsize wsize : ℕ}

/-- The slots and the list in every such history, when the capacity is positive as an `int`. -/
lemma HeadSpared.inv (hn : n < 2 ^ 31) (h : HeadSpared n mgr rsize wsize t used) :
    Slots t n used ∧ ∃ l, DList t.links t.head l ∧ ∀ i, i ∈ l ↔ i ∈ used := by
  induction h with
  | new junk => exact ⟨slots_new hn, [], DList.nil, by simp⟩
  | @alloc t t' used os fd i _ hstep ih =>
      obtain ⟨hslots, l, hl, hmem⟩ := ih
      rcases hslots.alloc_of_ok hstep with ⟨-, hv, -⟩ | ⟨-, j, c, hv, -, hnot, -, rfl, hslots'⟩
      · exact absurd hv (by rw [axRetFull]; omega)
      · obtain rfl : i = j := by exact_mod_cast hv
        refine ⟨hslots', i :: l, dlist_enlist hl c fun hi => hnot ((hmem i).mp hi), fun k => ?_⟩
        rw [List.mem_cons, Finset.mem_insert, hmem]
  | refused _ hv hstep ih =>
      rcases ih.1.alloc_of_ok hstep with ⟨rfl, -, -⟩ | ⟨-, j, c, rfl, -⟩
      · exact ih
      · omega
  | @free t t' used i _ hi hhead hstep ih =>
      obtain ⟨hslots, l, hl, hmem⟩ := ih
      obtain ⟨hok, hslots'⟩ := hslots.free hi
      obtain rfl := Except.ok.inj (hok.symm.trans hstep)
      refine ⟨hslots', l.erase i, dlist_delist hl ((hmem i).mpr hi) hhead, fun k => ?_⟩
      rw [hl.nodup.mem_erase_iff, Finset.mem_erase, hmem]
  | setStatus _ hi status ih =>
      obtain ⟨hslots, l, hl, hmem⟩ := ih
      refine ⟨hslots.setStatus hi status, l, ?_, hmem⟩
      rw [links_setStatus]
      exact hl

/-- A capacity beyond the range of `int` is held as a negative number, and every allocation is
refused. -/
lemma HeadSpared.unused (hn : 2 ^ 31 ≤ n) (hlt : n < 2 ^ 32)
    (h : HeadSpared n mgr rsize wsize t used) :
    used = ∅ ∧ t.head = none ∧ t.capacity ≤ t.count := by
  induction h with
  | new junk =>
      refine ⟨rfl, rfl, ?_⟩
      have hu : u32 n = n := u32_of_lt hlt
      simp only [ConnectContainer.new, i32, hu]
      split_ifs <;> omega
  | alloc _ hstep ih =>
      rcases allocConnect_eq_ok hstep with ⟨-, hv, -⟩ | ⟨-, -, hroom, -⟩ | ⟨-, -, -, hroom, -⟩
      · exact absurd hv (by rw [axRetFull]; omega)
      · exact absurd ih.2.2 (by omega)
      · exact absurd ih.2.2 (by omega)
  | refused _ hv hstep ih =>
      rcases allocConnect_eq_ok hstep with ⟨rfl, -⟩ | ⟨rfl, -⟩ | ⟨-, -, -, hroom, -⟩
      · exact ih
      · exact ih
      · exact absurd ih.2.2 (by omega)
  | free _ hi _ _ ih => exact absurd (ih.1 ▸ hi) (Finset.notMem_empty _)
  | setStatus _ hi _ ih => exact absurd (ih.1 ▸ hi) (Finset.notMem_empty _)

/-- **The iteration list is exactly the set of open connections** in every history of allocations
and frees that never frees the connection `head_` points at.  From there on, freeing any allocated
connection keeps it so if and only if `head_` does not point at it. -/
theorem lists_open_of_run (hn : n < 2 ^ 32) (h : HeadSpared n mgr rsize wsize t used) :
    ListsOpen t used ∧ ∀ i ∈ used, ∃ t', t.freeConnect i = .ok t' ∧
      (ListsOpen t' (used.erase i) ↔ t.head ≠ some i) := by
  rcases Nat.lt_or_ge n (2 ^ 31) with hlt | hge
  · obtain ⟨hslots, l, hl, hmem⟩ := h.inv hlt
    refine ⟨listsOpen_of_dlist hl hmem, fun i hi => ⟨_, (hslots.free hi).1, ?_, ?_⟩⟩
    · rintro ⟨l', hchain, -, hmem', -⟩ hhead
      -- the freed connection is still the first one of the chain
      obtain rfl := hchain.unique (chain_delist_head hl hhead)
      exact Finset.notMem_erase i used ((hmem' i).mp ((hmem i).mpr hi))
    · intro hhead
      refine listsOpen_of_dlist (dlist_delist hl ((hmem i).mpr hi) hhead) fun k => ?_
      rw [hl.nodup.mem_erase_iff, Finset.mem_erase, hmem]
  · obtain ⟨rfl, hhead, -⟩ := h.unused hge hn
    refine ⟨⟨[], hhead, List.nodup_nil, by simp, by simp, fun a ha => ?_⟩, by simp⟩
    rw [hhead] at ha
    exact absurd ha (by simp)

end Histories

/-- Two connections are opened and the older one is closed. -/
theorem lists_open_of_run_two : ∃ t used, HeadSpared 2 (some 0) 64 64 t used ∧ used = {1} ∧
    ListsOpen t used := by
  have h₀ : HeadSpared 2 (some 0) 64 64 _ ∅ := .new fun _ => 0
  have h₁ : HeadSpared 2 (some 0) 64 64 _ (insert 0 ∅) :=
    .alloc (i := 0) h₀ (show allocConnect zeroLibc _ 7 = .ok (_, _) from rfl)
  have h₂ : HeadSpared 2 (some 0) 64 64 _ (insert 1 (insert 0 ∅)) :=
    .alloc (i := 1) h₁ (show allocConnect zeroLibc _ 8 = .ok (_, _) from rfl)
  have h₃ : HeadSpared 2 (some 0) 64 64 _ (Finset.erase (insert 1 (insert 0 ∅)) 0) :=
    .free h₂ (by decide) (show some 1 ≠ some 0 by decide) (show freeConnect _ 0 = .ok _ from rfl)
  exact ⟨_, _, h₃, by decide, (lists_open_of_run (by decide) h₃).1⟩

/-- A connection is opened and closed again; `head_` still points at it. -/
theorem lists_open_fails : ∃ t, Run 1 (some 0) 64 64 t ∅ ∧ ¬ ListsOpen t ∅ := by
  have h₀ : Run 1 (some 0) 64 64 _ ∅ := .new fun _ => 0
  have h₁ : Run 1 (some 0) 64 64 _ (insert 0 ∅) :=
    .alloc (i := 0) h₀ zeroLibc_total (show (0 : ℤ) ≤ 7 by decide)
      (show allocConnect zeroLibc _ 7 = .ok (_, _) from rfl)
  have h₂ : Run 1 (some 0) 64 64 _ (Finset.erase (insert 0 ∅) 0) :=
    .free h₁ (by decide) (show freeConnect _ 0 = .ok _ from rfl)
  refine ⟨_, h₂, ?_⟩
  rintro ⟨l, hchain, -, hmem, -⟩
  cases l with
  | nil => exact absurd hchain (by rintro ⟨⟩)
  | cons i l => exact Finset.notMem_empty i ((hmem i).mp List.mem_cons_self)

end ConnectContainer

end Axon
