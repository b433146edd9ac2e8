import Axon.Core.Connect
import Mathlib.Data.Finset.Card
import Mathlib.Data.Int.Basic

/-!
# Connection slots are neither lost nor handed out twice

The stack of free indices of `ConnectContainer` over every history of allocations and frees.

* **`ConnectContainer.freeSlots`** : the indices from the top of the stack on.
* **`ConnectContainer.Slots`** : the invariant.  The counters count the slots in use, the stack
  enumerates the others, and a slot that is not in use has the status `CONN_EMPTY`.
* **`ConnectContainer.slots_of_run`** : every history of calls keeps it, and every next call returns
  what it should.
-/

namespace Axon

open Library

namespace ConnectContainer

/-- `free_stack_[stack_top_ .. capacity_)`. -/
def freeSlots (t : ConnectContainer) : List ℤ :=
  (List.range' t.stackTop.toNat (t.capacity - t.stackTop).toNat).map t.freeStack

/-- **The invariant** of a container of `n` slots of which `used` are allocated. -/
structure Slots (t : ConnectContainer) (n : ℕ) (used : Finset ℕ) : Prop where
  capacity : t.capacity = n
  slots : t.slots = n
  lt_of_mem : ∀ i ∈ used, i < n
  count : t.count = used.card
  stackTop : t.stackTop = used.card
  free_nodup : t.freeSlots.Nodup
  mem_free : ∀ v : ℤ, v ∈ t.freeSlots ↔ ∃ i : ℕ, v = i ∧ i < n ∧ i ∉ used
  status : ∀ i, i ∉ used → (t.connects i).status = connEmpty

/-- What the container is built with: a manager, and buffer sizes that are positive as `int`s. -/
structure Usable (t : ConnectContainer) : Prop where
  mgr : t.mgr.isSome
  rsize_pos : 0 < t.rsize
  rsize_lt : t.rsize < 2 ^ 31
  wsize_pos : 0 < t.wsize
  wsize_lt : t.wsize < 2 ^ 31

variable {t t' : ConnectContainer} {n : ℕ} {used : Finset ℕ} {os : Libc}

lemma Usable.congr (h : Usable t) (hm : t'.mgr = t.mgr) (hr : t'.rsize = t.rsize)
    (hw : t'.wsize = t.wsize) : Usable t' := by
  constructor
  · rw [hm]
    exact h.mgr
  · rw [hr]
    exact h.rsize_pos
  · rw [hr]
    exact h.rsize_lt
  · rw [hw]
    exact h.wsize_pos
  · rw [hw]
    exact h.wsize_lt

lemma Slots.card_le (h : Slots t n used) : used.card ≤ n := by
  have hsub : used ⊆ Finset.range n := fun i hi => Finset.mem_range.mpr (h.lt_of_mem i hi)
  simpa using Finset.card_le_card hsub

/-! ## The constructor -/

lemma freeSlots_new {junk : ℕ → ℤ} {mgr : Option ℕ} {r w : ℕ} (hlt : n < 2 ^ 31) :
    (new junk n mgr r w).freeSlots = (List.range n).map fun i : ℕ => (i : ℤ) := by
  simp only [freeSlots, new, i32_of_lt hlt, sub_zero, Int.toNat_natCast, Int.toNat_zero,
    ← List.range_eq_range']
  refine List.map_congr_left fun i hi => ?_
  rw [if_pos (by exact_mod_cast List.mem_range.mp hi)]

lemma slots_new {junk : ℕ → ℤ} {mgr : Option ℕ} {r w : ℕ} (hlt : n < 2 ^ 31) :
    Slots (new junk n mgr r w) n ∅ where
  capacity := i32_of_lt hlt
  slots := rfl
  lt_of_mem := by simp
  count := rfl
  stackTop := rfl
  free_nodup := by
    rw [freeSlots_new hlt]
    exact List.nodup_range.map Nat.cast_injective
  mem_free v := by
    rw [freeSlots_new hlt]
    simp [eq_comm, and_comm]
  status i _ := by
    simp only [new]
    split_ifs <;> rfl

/-! ## Allocation -/

lemma readyBuffer_total (hos : os.Total) (buf : Option BufferT) (size : ℕ) :
    ∃ b, Connect.readyBuffer os buf size = .ok b := by
  cases buf with
  | none =>
      rw [Connect.readyBuffer, BufferT.new, BufferT.alloc, rtAssert_of_pos (hos.malloc _)]
      exact ⟨_, rfl⟩
  | some b =>
      obtain ⟨p, hp⟩ := Option.isSome_iff_exists.mp (hos.realloc size)
      rw [Connect.readyBuffer, BufferT.reset]
      by_cases hsize : size = b.allocSize
      · simp only [hsize, ne_eq, not_true_eq_false, if_false]
        split_ifs <;> exact ⟨_, rfl⟩
      · rw [if_pos hsize, Libc.reallocBlock, hp]
        exact ⟨_, rfl⟩

/-- `Connect::init` returns for a socket and usable sizes. -/
lemma init_ok (hos : os.Total) (c : Connect) {m : Option ℕ} (hm : m.isSome) {fd r w : ℤ}
    (hfd : 0 ≤ fd) (hr : 0 < r) (hw : 0 < w) :
    ∃ c', c.init os m fd r w = .ok (c', axRetOk) := by
  obtain ⟨rb, hrb⟩ := readyBuffer_total hos c.rbuf r.toNat
  obtain ⟨wb, hwb⟩ := readyBuffer_total hos c.wbuf w.toNat
  rw [Connect.init, rtAssert_of_pos hm, ok_bind, rtAssert_of_pos ⟨hfd, hr, hw⟩, ok_bind, hrb,
    ok_bind, hwb]
  exact ⟨_, rfl⟩

/-- What `Connect::init` sets: the manager, the socket, the peer, the status and the buffers. -/
lemma init_eq_ok {c c' : Connect} {m : Option ℕ} {fd r w v : ℤ}
    (h : c.init os m fd r w = .ok (c', v)) :
    v = axRetOk ∧ m.isSome ∧ 0 ≤ fd ∧ ∃ rb wb : BufferT,
      Connect.readyBuffer os c.rbuf r.toNat = .ok rb ∧
      Connect.readyBuffer os c.wbuf w.toNat = .ok wb ∧ c' = { c with
        mgr := m, fd := fd, peerPort := 0, peerIp := 0, status := connEmpty
        rbuf := some rb, wbuf := some wb } := by
  rw [Connect.init] at h
  obtain ⟨_, hm, h⟩ := bind_eq_ok h
  obtain ⟨_, hfd, h⟩ := bind_eq_ok h
  obtain ⟨rb, hrb, h⟩ := bind_eq_ok h
  obtain ⟨wb, hwb, h⟩ := bind_eq_ok h
  obtain ⟨rfl, rfl⟩ := Prod.mk.inj (Except.ok.inj h)
  exact ⟨rfl, rtAssert_eq_ok hm, (rtAssert_eq_ok hfd).1, rb, wb, hrb, hwb, rfl⟩

/-- The container after the slot `i` has been handed out to the connection `c`. -/
def enlist (t : ConnectContainer) (i : ℕ) (c : Connect) : ConnectContainer :=
  { t with
    connects := setIf (Function.update t.connects i { c with next := t.head, prev := none })
      t.head fun h => { h with prev := some i }
    head := some i
    stackTop := t.stackTop + 1
    count := t.count + 1 }

/-- **What `alloc_connect` can do**: refuse because the container is full or the slot on top of the
stack is in use, or hand that slot out. -/
lemma allocConnect_eq_ok {fd v : ℤ} (h : t.allocConnect os fd = .ok (t', v)) :
    (t' = t ∧ v = axRetFull ∧ t.capacity ≤ t.count) ∨
    (t' = t ∧ v = axRetError ∧ t.count < t.capacity ∧ ∃ i : ℕ,
      t.freeStackAt t.stackTop = .ok (i : ℤ) ∧ (t.connects i).status ≠ connEmpty) ∨
    ∃ (i : ℕ) (c : Connect), v = i ∧ t.count < t.capacity ∧
      t.freeStackAt t.stackTop = .ok (i : ℤ) ∧ (i : ℤ) < t.capacity ∧
      (t.connects i).init os t.mgr fd (i32 t.rsize) (i32 t.wsize) = .ok (c, axRetOk) ∧
      t' = t.enlist i c := by
  rw [allocConnect] at h
  split_ifs at h with hfull
  · obtain ⟨rfl, rfl⟩ := Prod.mk.inj (Except.ok.inj h)
    exact Or.inl ⟨rfl, rfl, hfull⟩
  · obtain ⟨_, -, h⟩ := bind_eq_ok h
    obtain ⟨w, hw, h⟩ := bind_eq_ok h
    obtain ⟨_, hrange, h⟩ := bind_eq_ok h
    obtain ⟨hw0, hwcap⟩ := rtAssert_eq_ok hrange
    obtain ⟨i, rfl⟩ := Int.eq_ofNat_of_zero_le hw0
    dsimp only at h
    rw [Int.toNat_natCast] at h
    split_ifs at h with hstatus
    · obtain ⟨rfl, rfl⟩ := Prod.mk.inj (Except.ok.inj h)
      exact Or.inr (Or.inl ⟨rfl, rfl, not_le.mp hfull, i, hw, hstatus⟩)
    · obtain ⟨⟨c, r⟩, hc, h⟩ := bind_eq_ok h
      obtain ⟨rfl, -⟩ := init_eq_ok hc
      obtain ⟨rfl, rfl⟩ := Prod.mk.inj (Except.ok.inj h)
      exact Or.inr (Or.inr ⟨i, c, rfl, not_le.mp hfull, hw, hwcap, hc, rfl⟩)

/-- The assignment is to another field. -/
lemma setIf_field {β : Type} (φ : Connect → β) {connects : ℕ → Connect} {p : Option ℕ}
    {f : Connect → Connect} {i : ℕ} (hf : ∀ c, φ (f c) = φ c) :
    φ (setIf connects p f i) = φ (connects i) := by
  cases p with
  | none => rfl
  | some j =>
      rcases eq_or_ne i j with rfl | hne
      · simp [setIf, hf]
      · simp [setIf, Function.update_of_ne hne]

lemma Slots.freeSlots_eq (h : Slots t n used) :
    t.freeSlots = (List.range' used.card (n - used.card)).map t.freeStack := by
  rw [freeSlots, h.stackTop, h.capacity, Int.toNat_natCast]
  congr 2
  omega

/-- The top of the stack, when there is a free slot. -/
lemma Slots.freeSlots_cons (h : Slots t n used) (hlt : used.card < n) :
    t.freeSlots = t.freeStack used.card ::
      (List.range' (used.card + 1) (n - used.card - 1)).map t.freeStack := by
  have hsucc : n - used.card = (n - used.card - 1) + 1 := by omega
  rw [h.freeSlots_eq, hsucc, List.range'_succ]
  rfl

lemma Slots.freeStackAt_top (h : Slots t n used) (hlt : used.card < n) :
    t.freeStackAt t.stackTop = .ok (t.freeStack used.card) := by
  rw [freeStackAt, h.stackTop, h.slots, if_pos ⟨by omega, by exact_mod_cast hlt⟩,
    Int.toNat_natCast]

/-- The slot on top of the stack is a free one. -/
lemma Slots.top_free (h : Slots t n used) (hlt : used.card < n) {i : ℕ}
    (hi : t.freeStackAt t.stackTop = .ok (i : ℤ)) :
    t.freeStack used.card = i ∧ i < n ∧ i ∉ used := by
  have htop : t.freeStack used.card = i :=
    Except.ok.inj ((h.freeStackAt_top hlt).symm.trans hi)
  have hmem : (i : ℤ) ∈ t.freeSlots := by
    rw [h.freeSlots_cons hlt, htop]
    exact List.mem_cons_self
  obtain ⟨j, hj, hjn, hnot⟩ := (h.mem_free _).mp hmem
  obtain rfl : i = j := by exact_mod_cast hj
  exact ⟨htop, hjn, hnot⟩

/-- Handing a slot out changes only the links of the other connections. -/
lemma enlist_field {β : Type} (φ : Connect → β)
    (hφ : ∀ (c : Connect) n p, φ { c with next := n, prev := p } = φ c) (c : Connect) {i j : ℕ}
    (hj : j ≠ i) : φ ((t.enlist i c).connects j) = φ (t.connects j) := by
  rw [enlist]
  dsimp only
  rw [setIf_field φ, Function.update_of_ne hj]
  exact fun c => hφ c c.next (some i)

/-- The slot on top of the stack goes into use. -/
lemma Slots.enlist (h : Slots t n used) (hlt : used.card < n) {i : ℕ} (c : Connect)
    (hi : t.freeStackAt t.stackTop = .ok (i : ℤ)) : Slots (t.enlist i c) n (insert i used) := by
  obtain ⟨htop, hin, hnot⟩ := h.top_free hlt hi
  have hfree := h.freeSlots_cons hlt
  have hnd := h.free_nodup
  rw [hfree, List.nodup_cons, htop] at hnd
  have hcard : (insert i used).card = used.card + 1 := Finset.card_insert_of_notMem hnot
  have hrest : (t.enlist i c).freeSlots =
      (List.range' (used.card + 1) (n - used.card - 1)).map t.freeStack := by
    rw [freeSlots, ConnectContainer.enlist]
    dsimp only
    rw [h.stackTop, h.capacity]
    congr 2
    omega
  constructor
  · exact h.capacity
  · exact h.slots
  · intro j hj
    rcases Finset.mem_insert.mp hj with rfl | hj
    · exact hin
    · exact h.lt_of_mem j hj
  · simp [ConnectContainer.enlist, h.count, hcard]
  · simp [ConnectContainer.enlist, h.stackTop, hcard]
  · rw [hrest]
    exact hnd.2
  · intro v
    rw [hrest]
    have hmem := h.mem_free v
    rw [hfree, List.mem_cons, htop] at hmem
    constructor
    · intro hv
      obtain ⟨j, rfl, hjn, hj⟩ := hmem.mp (Or.inr hv)
      refine ⟨j, rfl, hjn, fun hins => ?_⟩
      rcases Finset.mem_insert.mp hins with rfl | hj'
      · exact hnd.1 hv
      · exact hj hj'
    · rintro ⟨j, rfl, hjn, hj⟩
      rw [Finset.mem_insert, not_or] at hj
      rcases hmem.mpr ⟨j, rfl, hjn, hj.2⟩ with heq | hv
      · exact absurd (by exact_mod_cast heq) hj.1
      · exact hv
  · intro j hj
    rw [Finset.mem_insert, not_or] at hj
    exact (enlist_field Connect.status (fun _ _ _ => rfl) c hj.1).trans (h.status j hj.2)

/-- **What `alloc_connect` does to the slots**: it is refused when all are in use, and otherwise
hands a free one out. -/
lemma Slots.alloc_of_ok (h : Slots t n used) {fd v : ℤ}
    (hstep : t.allocConnect os fd = .ok (t', v)) :
    (t' = t ∧ v = axRetFull ∧ used.card = n) ∨
    (used.card < n ∧ ∃ (i : ℕ) (c : Connect), v = i ∧ i < n ∧ i ∉ used ∧
      (t.connects i).init os t.mgr fd (i32 t.rsize) (i32 t.wsize) = .ok (c, axRetOk) ∧
      t' = t.enlist i c ∧ Slots t' n (insert i used)) := by
  have hle := h.card_le
  have hcap := h.capacity
  have hcount := h.count
  rcases allocConnect_eq_ok hstep with ⟨rfl, rfl, hfull⟩ | ⟨-, -, hroom, i, hi, hstatus⟩ |
    ⟨i, c, rfl, hroom, hi, -, hinit, rfl⟩
  · exact Or.inl ⟨rfl, rfl, by omega⟩
  · exact absurd (h.status i (h.top_free (by omega) hi).2.2) hstatus
  · have hlt : used.card < n := by omega
    obtain ⟨-, hin, hnot⟩ := h.top_free hlt hi
    exact Or.inr ⟨hlt, i, c, rfl, hin, hnot, hinit, rfl, h.enlist hlt c hi⟩

/-- `alloc_connect` returns. -/
lemma Slots.alloc_total (h : Slots t n used) (hu : Usable t) (hos : os.Total) {fd : ℤ}
    (hfd : 0 ≤ fd) : ∃ t' v, t.allocConnect os fd = .ok (t', v) := by
  rw [allocConnect]
  split_ifs with hfull
  · exact ⟨t, _, rfl⟩
  · rw [h.count, h.capacity] at hfull
    have hlt : used.card < n := by omega
    have hat := h.freeStackAt_top hlt
    obtain ⟨i, hi, hin, hnot⟩ := (h.mem_free _).mp (h.freeSlots_cons hlt ▸ List.mem_cons_self)
    rw [hi] at hat
    obtain ⟨c, hc⟩ := init_ok hos (t.connects i) hu.mgr hfd
      (r := i32 t.rsize) (w := i32 t.wsize)
      (by rw [i32_of_lt hu.rsize_lt]; exact_mod_cast hu.rsize_pos)
      (by rw [i32_of_lt hu.wsize_lt]; exact_mod_cast hu.wsize_pos)
    rw [rtAssert_of_pos hu.mgr, ok_bind, hat, ok_bind,
      rtAssert_of_pos ⟨by omega, by rw [h.capacity]; exact_mod_cast hin⟩, ok_bind]
    dsimp only
    rw [Int.toNat_natCast, if_neg (not_not.mpr (h.status i hnot)), hc]
    exact ⟨_, _, rfl⟩

/-! ## Freeing -/

/-- The container after the slot `i` has been given back. -/
def delist (t : ConnectContainer) (i : ℕ) : ConnectContainer :=
  let connects := Function.update t.connects i { t.connects i with status := connEmpty }
  let connects := setIf connects (t.connects i).prev fun p =>
    { p with next := (t.connects i).next }
  { t with
    connects := setIf connects (connects i).next fun q => { q with prev := (connects i).prev }
    count := t.count - 1
    stackTop := t.stackTop - 1
    freeStack := Function.update t.freeStack (t.stackTop - 1).toNat i }

/-- **What `free_connect` does** when its assertions hold: the slot goes back. -/
lemma freeConnect_total {i : ℕ} (htop : 0 < t.stackTop) (hle : t.stackTop ≤ t.slots)
    (hcount : 0 < t.count) (hi : (i : ℤ) < t.capacity) :
    t.freeConnect i = .ok (t.delist i) := by
  rw [freeConnect, rtAssert_of_pos ⟨htop, hcount⟩, ok_bind, rtAssert_of_pos ⟨by omega, hi⟩, ok_bind]
  dsimp only
  rw [if_pos (by omega), Int.toNat_natCast]
  rfl

/-- Giving a slot back changes only the links of the other connections, and its own status. -/
lemma delist_field {β : Type} (φ : Connect → β)
    (hφ : ∀ (c : Connect) n p, φ { c with next := n, prev := p } = φ c) (t : ConnectContainer)
    (i j : ℕ) : φ ((t.delist i).connects j) =
      φ (Function.update t.connects i { t.connects i with status := connEmpty } j) := by
  rw [delist]
  dsimp only
  rw [setIf_field φ, setIf_field φ]
  · exact fun c => hφ c _ c.prev
  · exact fun c => hφ c c.next _

/-- The stack after a slot went back: the element under the old top is overwritten, the ones above
it stay. -/
lemma Slots.freeSlots_delist (h : Slots t n used) {i : ℕ} (hi : i ∈ used) :
    (t.delist i).freeSlots = (i : ℤ) :: t.freeSlots := by
  have hpos : 0 < used.card := Finset.card_pos.mpr ⟨i, hi⟩
  have hle := h.card_le
  have hlen : (t.capacity - (t.stackTop - 1)).toNat = (n - used.card) + 1 := by
    rw [h.capacity, h.stackTop]
    omega
  have htop : (t.stackTop - 1).toNat = used.card - 1 := by
    rw [h.stackTop]
    omega
  rw [freeSlots, delist]
  dsimp only
  rw [hlen, htop, List.range'_succ, List.map_cons, Function.update_self, h.freeSlots_eq,
    Nat.sub_add_cancel hpos]
  congr 1
  refine List.map_congr_left fun j hj => Function.update_of_ne ?_ _ _
  have := (List.mem_range'_1.mp hj).1
  omega

/-- A slot in use goes back on the stack. -/
lemma Slots.delist (h : Slots t n used) {i : ℕ} (hi : i ∈ used) :
    Slots (t.delist i) n (used.erase i) := by
  have hpos : 0 < used.card := Finset.card_pos.mpr ⟨i, hi⟩
  have hin := h.lt_of_mem i hi
  have hcard : (used.erase i).card = used.card - 1 := Finset.card_erase_of_mem hi
  constructor
  · exact h.capacity
  · exact h.slots
  · exact fun j hj => h.lt_of_mem j (Finset.mem_of_mem_erase hj)
  · simp only [ConnectContainer.delist, h.count, hcard]
    omega
  · simp only [ConnectContainer.delist, h.stackTop, hcard]
    omega
  · rw [h.freeSlots_delist hi, List.nodup_cons]
    refine ⟨fun hmem => ?_, h.free_nodup⟩
    obtain ⟨j, hij, -, hj⟩ := (h.mem_free _).mp hmem
    obtain rfl : i = j := by exact_mod_cast hij
    exact hj hi
  · intro v
    rw [h.freeSlots_delist hi, List.mem_cons, h.mem_free]
    constructor
    · rintro (rfl | ⟨j, rfl, hjn, hj⟩)
      · exact ⟨i, rfl, hin, Finset.notMem_erase i used⟩
      · exact ⟨j, rfl, hjn, fun hmem => hj (Finset.mem_of_mem_erase hmem)⟩
    · rintro ⟨j, rfl, hjn, hj⟩
      rcases eq_or_ne j i with rfl | hne
      · exact Or.inl rfl
      · exact Or.inr ⟨j, rfl, hjn, fun hmem => hj (Finset.mem_erase.mpr ⟨hne, hmem⟩)⟩
  · intro j hj
    rcases eq_or_ne j i with rfl | hne
    · rw [delist_field Connect.status fun _ _ _ => rfl, Function.update_self]
    · rw [delist_field Connect.status fun _ _ _ => rfl, Function.update_of_ne hne]
      exact h.status j fun hmem => hj (Finset.mem_erase.mpr ⟨hne, hmem⟩)

/-- **A slot in use goes back** on the stack. -/
lemma Slots.free (h : Slots t n used) {i : ℕ} (hi : i ∈ used) :
    t.freeConnect i = .ok (t.delist i) ∧ Slots (t.delist i) n (used.erase i) := by
  have hpos : 0 < used.card := Finset.card_pos.mpr ⟨i, hi⟩
  have hle := h.card_le
  have hin := h.lt_of_mem i hi
  refine ⟨freeConnect_total ?_ ?_ ?_ ?_, h.delist hi⟩
  · rw [h.stackTop]
    omega
  · rw [h.stackTop, h.slots]
    omega
  · rw [h.count]
    omega
  · rw [h.capacity]
    omega

/-! ## Histories -/

/-- The connection in a slot in use may be changed. -/
lemma Slots.setConnect (h : Slots t n used) {i : ℕ} (hi : i ∈ used) (c : Connect) :
    Slots { t with connects := Function.update t.connects i c } n used :=
  { h with
    status := fun j hj => by
      have hne : j ≠ i := fun hji => hj (hji ▸ hi)
      simp only [Function.update_of_ne hne]
      exact h.status j hj }

/-- A slot in use may get any status. -/
lemma Slots.setStatus (h : Slots t n used) {i : ℕ} (hi : i ∈ used) (status : ℤ) :
    Slots (t.setStatus i status) n used := h.setConnect hi _

/-- **A history** of a container: allocations for sockets, frees of allocated slots, and changes of
the status of allocated connections.  `used` are the slots allocated now. -/
inductive Run (n : ℕ) (mgr : Option ℕ) (rsize wsize : ℕ) : ConnectContainer → Finset ℕ → Prop
  | new (junk : ℕ → ℤ) : Run n mgr rsize wsize (ConnectContainer.new junk n mgr rsize wsize) ∅
  | alloc {t t' : ConnectContainer} {used : Finset ℕ} {os : Libc} {fd : ℤ} {i : ℕ}
      (h : Run n mgr rsize wsize t used) (hos : os.Total) (hfd : 0 ≤ fd)
      (hstep : t.allocConnect os fd = .ok (t', (i : ℤ))) : Run n mgr rsize wsize t' (insert i used)
  | refused {t t' : ConnectContainer} {used : Finset ℕ} {os : Libc} {fd v : ℤ}
      (h : Run n mgr rsize wsize t used) (hos : os.Total) (hfd : 0 ≤ fd) (hv : v < 0)
      (hstep : t.allocConnect os fd = .ok (t', v)) : Run n mgr rsize wsize t' used
  | free {t t' : ConnectContainer} {used : Finset ℕ} {i : ℕ}
      (h : Run n mgr rsize wsize t used) (hi : i ∈ used) (hstep : t.freeConnect i = .ok t') :
      Run n mgr rsize wsize t' (used.erase i)
  | setStatus {t : ConnectContainer} {used : Finset ℕ} {i : ℕ}
      (h : Run n mgr rsize wsize t used) (hi : i ∈ used) (status : ℤ) :
      Run n mgr rsize wsize (t.setStatus i status) used

section Histories

variable {mgr : Option ℕ} {rsize wsize : ℕ}

lemma Run.inv (hn : n < 2 ^ 31) (hmgr : mgr.isSome) (hr : 0 < rsize ∧ rsize < 2 ^ 31)
    (hw : 0 < wsize ∧ wsize < 2 ^ 31) (h : Run n mgr rsize wsize t used) :
    Slots t n used ∧ Usable t := by
  induction h with
  | new junk => exact ⟨slots_new hn, hmgr, hr.1, hr.2, hw.1, hw.2⟩
  | alloc _ _ _ hstep ih =>
      obtain ⟨ih, hu⟩ := ih
      rcases ih.alloc_of_ok hstep with ⟨-, hv, -⟩ | ⟨-, j, c, hv, -, -, -, rfl, hslots⟩
      · exact absurd hv (by rw [axRetFull]; omega)
      · obtain rfl : _ = j := by exact_mod_cast hv
        exact ⟨hslots, hu.congr rfl rfl rfl⟩
  | refused _ _ _ hv hstep ih =>
      rcases ih.1.alloc_of_ok hstep with ⟨rfl, -, -⟩ | ⟨-, j, c, rfl, -⟩
      · exact ih
      · omega
  | free _ hi hstep ih =>
      obtain ⟨ih, hu⟩ := ih
      obtain ⟨hok, hslots⟩ := ih.free hi
      obtain rfl := Except.ok.inj (hok.symm.trans hstep)
      exact ⟨hslots, hu.congr rfl rfl rfl⟩
  | setStatus _ hi status ih =>
      exact ⟨ih.1.setStatus hi status, ih.2.congr rfl rfl rfl⟩

/-- **Slots are neither lost nor handed out twice.**  In every history of a container with a
manager, buffer sizes and a capacity that are positive as `int`s, the counters count the slots in
use and the stack enumerates the others; the next `alloc_connect` returns, with `AX_RET_FULL`
exactly when all slots are in use and otherwise with a slot that is not; and the next `free_connect`
returns. -/
theorem slots_of_run (hn : n < 2 ^ 31) (hmgr : mgr.isSome) (hr : 0 < rsize ∧ rsize < 2 ^ 31)
    (hw : 0 < wsize ∧ wsize < 2 ^ 31) (h : Run n mgr rsize wsize t used) :
    t.count = used.card ∧ t.stackTop = used.card ∧ t.freeSlots.Nodup ∧
    (∀ v : ℤ, v ∈ t.freeSlots ↔ ∃ i : ℕ, v = i ∧ i < n ∧ i ∉ used) ∧
    (∀ os fd, Libc.Total os → 0 ≤ fd → ∃ t' v, t.allocConnect os fd = .ok (t', v) ∧
      (v = axRetFull ↔ used.card = n) ∧
      (v ≠ axRetFull → ∃ i : ℕ, v = i ∧ i < n ∧ i ∉ used)) ∧
    ∀ i ∈ used, ∃ t', t.freeConnect i = .ok t' := by
  obtain ⟨hslots, hu⟩ := h.inv hn hmgr hr hw
  refine ⟨hslots.count, hslots.stackTop, hslots.free_nodup, hslots.mem_free, ?_, ?_⟩
  · intro os fd hos hfd
    obtain ⟨t', v, hok⟩ := hslots.alloc_total hu hos hfd
    refine ⟨t', v, hok, ?_⟩
    rcases hslots.alloc_of_ok hok with ⟨-, rfl, hcard⟩ | ⟨hlt, i, c, rfl, hin, hnot, -⟩
    · exact ⟨⟨fun _ => hcard, fun _ => rfl⟩, fun hne => absurd rfl hne⟩
    · refine ⟨⟨fun hv => ?_, fun hc => by omega⟩, fun _ => ⟨i, rfl, hin, hnot⟩⟩
      exact absurd hv (by rw [axRetFull]; omega)
  · exact fun i hi => ⟨_, (hslots.free hi).1⟩

end Histories

/-- Both slots of a container are allocated, and the first one is freed again. -/
theorem slots_of_run_two : ∃ t used, Run 2 (some 0) 64 64 t used ∧ used = {1} ∧
    t.freeSlots = [0] ∧ t.count = used.card := by
  have h₀ : Run 2 (some 0) 64 64 _ ∅ := .new fun _ => 0
  have h₁ : Run 2 (some 0) 64 64 _ (insert 0 ∅) :=
    .alloc (i := 0) h₀ zeroLibc_total (show (0 : ℤ) ≤ 7 by decide)
      (show allocConnect zeroLibc _ 7 = .ok (_, _) from rfl)
  have h₂ : Run 2 (some 0) 64 64 _ (insert 1 (insert 0 ∅)) :=
    .alloc (i := 1) h₁ zeroLibc_total (show (0 : ℤ) ≤ 8 by decide)
      (show allocConnect zeroLibc _ 8 = .ok (_, _) from rfl)
  have h₃ : Run 2 (some 0) 64 64 _ (Finset.erase (insert 1 (insert 0 ∅)) 0) :=
    .free h₂ (by decide) (show freeConnect _ 0 = .ok _ from rfl)
  exact ⟨_, _, h₃, by decide, by decide,
    (slots_of_run (by decide) rfl (by decide) (by decide) h₃).1⟩

/-- **What the guards refuse.**  Without a socket `Connect::init` aborts; and a capacity beyond the
range of `int` makes an empty container full. -/
theorem slots_guarded :
    allocConnect zeroLibc (new (fun _ => 0) 1 (some 0) 64 64) (-1) =
      .error (.rtAssert "fd >= 0 && rsize > 0 && wsize > 0") ∧
    ∃ t, allocConnect zeroLibc (new (fun _ => 0) (2 ^ 31) (some 0) 64 64) 3 =
      .ok (t, axRetFull) ∧ t.count = 0 := by
  refine ⟨rfl, new (fun _ => 0) (2 ^ 31) (some 0) 64 64, ?_, rfl⟩
  rw [allocConnect, if_pos (by decide)]

end ConnectContainer

end Axon
