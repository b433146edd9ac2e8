import Axon.Core.CommonDef
import Axon.Library.LinkedList
import Mathlib.Data.Int.Basic
import Mathlib.Tactic.NormNum.Basic

/-!
# The memory pool `MemPool`

`mem_pool.cc`: a block of `n` nodes of equal size, made at the start.  The free nodes are linked by
their indices: the first `int` of a free node holds the index of the next one.  One more byte behind
each node says whether it is handed out; `alloc` and `free` check it.  When all nodes are out,
`alloc` falls back to `malloc`.

* **`PoolElt`** : what the nodes hold.  The pool reads and writes their first `int` only.
* **`MemPool.alloc`**, **`MemPool.free`** : the member functions, with the memory of the nodes and
  of the blocks from `malloc` passed along as a `Library.Heap`.
* **`MemPool.Owns`** : the invariant.  The free nodes are those of the block that are not out.
* **`MemPool.Owns.alloc`**, **`MemPool.Owns.free`** : the two functions keep it.

The nodes of the pool stay readable after they are freed; a block from `malloc` does not.
-/

namespace Axon

open Library

/-- Records whose first member is an `int`. -/
class PoolElt (ε : Type) where
  firstInt : ε → ℤ
  setFirstInt : ε → ℤ → ε
  firstInt_setFirstInt : ∀ e z, firstInt (setFirstInt e z) = z

/-- `POOL_ALLOC_FLAG` and `POOL_FREE_FLAG`. -/
def poolAllocFlag : ℕ := 0x77

@[inherit_doc poolAllocFlag] def poolFreeFlag : ℕ := 0x0

/-- The fields of `MemPool`. -/
structure MemPool where
  buf : ℕ
  bufEnd : ℕ
  /-- Head of the free link: the index of a node, or `-1`. -/
  freeNode : ℤ
  capacity : ℤ
  nalloc : ℤ
  /-- Bytes of valid data in a node. -/
  eltSize : ℕ
  /-- Bytes from one node to the next. -/
  offset : ℕ
  /-- The byte behind the node at an address. -/
  flag : ℕ → ℕ

namespace MemPool

variable {ε : Type} [PoolElt ε]

/-- The address of the node with index `i`. -/
def node (p : MemPool) (i : ℕ) : ℕ := p.buf + i * p.offset

/-- The nodes after the constructor: zeroed, and each linked to the one behind it. -/
def initialNodes (buf offset n : ℕ) (zero : ε) : Heap ε where
  cell a :=
    if buf ≤ a ∧ (a - buf) % offset = 0 ∧ (a - buf) / offset < n then
      some (PoolElt.setFirstInt zero
        (if (a - buf) / offset + 1 < n then ((a - buf) / offset + 1 : ℕ) else -1))
    else none
  bound := buf + n * offset + 1
  cell_of_bound_le a ha := by
    refine if_neg ?_
    rintro ⟨hle, hmod, hdiv⟩
    have hmul : (a - buf) / offset * offset ≤ n * offset :=
      Nat.mul_le_mul_right offset (Nat.le_of_lt hdiv)
    rw [Nat.div_mul_cancel (Nat.dvd_of_mod_eq_zero hmod)] at hmul
    omega

/-- `MemPool::MemPool`, of nodes that hold `zero` when all their bytes are zero.  `buf` is the
address `malloc` returns.  The last link is written to the node `capacity_ - 1`, at an `int` product
from the start. -/
def new (os : Libc) (buf : ℕ) (zero : ε) (n eltSize : ℕ) : Except Fault (MemPool × Heap ε) := do
  let eltSize := if eltSize < 4 + 1 then 4 + 1 else eltSize
  let offset := eltSize + 1
  rtAssert "buf_ != NULL" ((os.malloc (u32 (n * offset))).isSome)
  if 0 < n ∧ n * offset < 2 ^ 32 ∧ (n - 1) * offset < 2 ^ 31 then
    pure ({ buf := buf
            bufEnd := buf + n * offset
            freeNode := 0
            capacity := n
            nalloc := 0
            eltSize := eltSize
            offset := offset
            flag := fun _ => poolFreeFlag }, initialNodes buf offset n zero)
  else .error .badAccess

/-- `MemPool::alloc`.  `malloc` chooses the address of a fallback block, which holds `junk`. -/
def alloc (malloc : Allocator ε) (junk : ε) (p : MemPool) (h : Heap ε) :
    Except Fault (MemPool × Heap ε × ℕ) :=
  if p.capacity ≤ p.nalloc then
    let a := malloc.new h
    .ok (p, h.put a junk, a)
  else do
    rtAssert "free_node_ >= 0" (0 ≤ p.freeNode)
    let a := p.node p.freeNode.toNat
    let e ← deref h a
    rtAssert "*(p + elt_size_) == POOL_FREE_FLAG" (p.flag a = poolFreeFlag)
    pure ({ p with
      freeNode := PoolElt.firstInt e
      flag := Function.update p.flag a poolAllocFlag
      nalloc := p.nalloc + 1 }, h, a)

/-- `MemPool::free`. -/
def free (p : MemPool) (h : Heap ε) (a : ℕ) : Except Fault (MemPool × Heap ε) :=
  if a < p.buf ∨ p.bufEnd < a then do
    let h ← release h a
    pure (p, h)
  else do
    rtAssert "*(pc + elt_size_) == POOL_ALLOC_FLAG" (p.flag a = poolAllocFlag)
    let h ← assign h a fun e => PoolElt.setFirstInt e p.freeNode
    pure ({ p with
      freeNode := ((a - p.buf) / p.offset : ℕ)
      flag := Function.update p.flag a poolFreeFlag
      nalloc := p.nalloc - 1 }, h)

/-! ## The invariant -/

/-- An index, unless it is negative. -/
def toIndex (z : ℤ) : Option ℕ := if 0 ≤ z then some z.toNat else none

@[simp] lemma toIndex_natCast (i : ℕ) : toIndex (i : ℤ) = some i := by simp [toIndex]

lemma toIndex_eq_some {z : ℤ} {i : ℕ} (h : toIndex z = some i) : 0 ≤ z ∧ z.toNat = i := by
  rw [toIndex] at h
  split_ifs at h with hz
  exact ⟨hz, Option.some.inj h⟩

/-- The free node linked behind the node `i`. -/
def nextFree (p : MemPool) (h : Heap ε) (i : ℕ) : Option ℕ :=
  (h.cell (p.node i)).bind fun e => toIndex (PoolElt.firstInt e)

/-- **The pool owns its nodes**: of the `n` nodes the ones in `out` are handed out, the ones in `fl`
are free, in the order of the free link; other addresses in `out` are blocks from `malloc`. -/
structure Owns (p : MemPool) (h : Heap ε) (n : ℕ) (out fl : List ℕ) : Prop where
  offset_pos : 0 < p.offset
  capacity : p.capacity = n
  bufEnd : p.bufEnd = p.buf + n * p.offset
  nalloc : p.nalloc + fl.length = n
  chain : Chain (p.nextFree h) (toIndex p.freeNode) fl
  free_iff : ∀ i, i ∈ fl ↔ i < n ∧ p.node i ∉ out
  flag : ∀ i < n, p.flag (p.node i) = if i ∈ fl then poolFreeFlag else poolAllocFlag
  node_live : ∀ i < n, h.Live (p.node i)
  out_nodup : out.Nodup
  out_live : ∀ a ∈ out, h.Live a
  out_cases : ∀ a ∈ out, (∃ i < n, a = p.node i) ∨ a < p.buf ∨ p.bufEnd < a

section Owns

variable {p : MemPool} {h h' : Heap ε} {n a : ℕ} {out fl : List ℕ}

lemma node_inj (hpos : 0 < p.offset) {i j : ℕ} (hij : p.node i = p.node j) : i = j := by
  rw [node, node, Nat.add_left_cancel_iff] at hij
  exact Nat.eq_of_mul_eq_mul_right hpos hij

lemma Owns.node_range (ho : Owns p h n out fl) {i : ℕ} (hi : i < n) :
    ¬ (p.node i < p.buf ∨ p.bufEnd < p.node i) := by
  have hle : i * p.offset ≤ n * p.offset := Nat.mul_le_mul_right _ (Nat.le_of_lt hi)
  rw [ho.bufEnd, node]
  omega

lemma Owns.fl_lt (ho : Owns p h n out fl) {i : ℕ} (hi : i ∈ fl) : i < n :=
  ((ho.free_iff i).mp hi).1

/-- A client may write to the nodes it holds. -/
lemma Owns.congr (ho : Owns p h n out fl) (hlive : ∀ b, h'.Live b ↔ h.Live b)
    (hcell : ∀ b, b ∉ out → h'.cell b = h.cell b) : Owns p h' n out fl :=
  { ho with
    chain := ho.chain.congr fun i hi => by
      rw [nextFree, nextFree, hcell _ ((ho.free_iff i).mp hi).2]
    node_live := fun i hi => (hlive _).mpr (ho.node_live i hi)
    out_live := fun a ha => (hlive a).mpr (ho.out_live a ha) }

/-- Only the flags of the nodes count. -/
lemma Owns.reflag (ho : Owns p h n out fl) {f : ℕ → ℕ}
    (hf : ∀ i < n, f (p.node i) = p.flag (p.node i)) : Owns { p with flag := f } h n out fl :=
  { ho with flag := fun i hi => (hf i hi).trans (ho.flag i hi) }

/-- All nodes are out: a block from `malloc`, which is not in use and outside, is handed out. -/
lemma Owns.put_block (ho : Owns p h n out fl) (junk : ε) (hnew : ¬ h.Live a)
    (hout : a < p.buf ∨ p.bufEnd < a) (hfull : p.capacity ≤ p.nalloc) :
    a ∉ out ∧ Owns p (h.put a junk) n (a :: out) fl := by
  have hnot : a ∉ out := fun hmem => hnew (ho.out_live _ hmem)
  have hfl : fl = [] := by
    have h1 := ho.nalloc
    have h2 := ho.capacity
    exact List.length_eq_zero_iff.mp (by omega)
  have hne : ∀ i < n, p.node i ≠ a := fun i hi he => hnew (he ▸ ho.node_live i hi)
  refine ⟨hnot, ?_⟩
  exact
    { ho with
      chain := ho.chain.congr fun i hi => absurd hi (by simp [hfl])
      free_iff := fun i => by
        rw [ho.free_iff i, List.mem_cons, not_or]
        exact and_congr_right fun hi => ⟨fun hn => ⟨hne i hi, hn⟩, fun hn => hn.2⟩
      node_live := fun i hi => Heap.live_put.mpr (Or.inr (ho.node_live i hi))
      out_nodup := List.nodup_cons.mpr ⟨hnot, ho.out_nodup⟩
      out_live := fun b hb => by
        rcases List.mem_cons.mp hb with rfl | hb
        · exact Heap.live_put.mpr (Or.inl rfl)
        · exact Heap.live_put.mpr (Or.inr (ho.out_live b hb))
      out_cases := fun b hb => by
        rcases List.mem_cons.mp hb with rfl | hb
        · exact Or.inr hout
        · exact ho.out_cases b hb }

/-- The first node of the free link is handed out. -/
lemma Owns.alloc_node {i : ℕ} {e : ε} (ho : Owns p h n out (i :: fl))
    (he : h.cell (p.node i) = some e) :
    Owns { p with
      freeNode := PoolElt.firstInt e
      flag := Function.update p.flag (p.node i) poolAllocFlag
      nalloc := p.nalloc + 1 } h n (p.node i :: out) fl := by
  have hi : i < n := ho.fl_lt List.mem_cons_self
  have hnot : p.node i ∉ out := ((ho.free_iff i).mp List.mem_cons_self).2
  have hnd := ho.chain.nodup
  constructor
  · exact ho.offset_pos
  · exact ho.capacity
  · exact ho.bufEnd
  · have hlen := ho.nalloc
    simp only [List.length_cons, Nat.cast_add, Nat.cast_one] at hlen
    simp only
    omega
  · have hnext : p.nextFree h i = toIndex (PoolElt.firstInt e) := by
      rw [nextFree, he]
      rfl
    rw [← hnext]
    exact ho.chain.2
  · intro j
    have hj := ho.free_iff j
    show j ∈ fl ↔ j < n ∧ p.node j ∉ p.node i :: out
    rw [List.mem_cons] at hj
    rw [List.mem_cons, not_or]
    constructor
    · intro hmem
      have hji : j ≠ i := fun he => (List.nodup_cons.mp hnd).1 (he ▸ hmem)
      exact ⟨(hj.mp (Or.inr hmem)).1, fun hc => hji (node_inj ho.offset_pos hc),
        (hj.mp (Or.inr hmem)).2⟩
    · rintro ⟨hlt, hne, hnotj⟩
      rcases hj.mpr ⟨hlt, hnotj⟩ with rfl | hmem
      · exact absurd rfl hne
      · exact hmem
  · intro j hj
    have hfj := ho.flag j hj
    show Function.update p.flag (p.node i) poolAllocFlag (p.node j) = _
    rcases eq_or_ne j i with rfl | hji
    · rw [Function.update_self, if_neg (List.nodup_cons.mp hnd).1]
    · rw [Function.update_of_ne fun hc => hji (node_inj ho.offset_pos hc), hfj]
      simp [hji]
  · exact ho.node_live
  · exact List.nodup_cons.mpr ⟨hnot, ho.out_nodup⟩
  · intro b hb
    rcases List.mem_cons.mp hb with rfl | hb
    · exact ho.node_live i hi
    · exact ho.out_live b hb
  · intro b hb
    rcases List.mem_cons.mp hb with rfl | hb
    · exact Or.inl ⟨i, hi, rfl⟩
    · exact ho.out_cases b hb

/-- **A node or a block is handed out** that was not out. -/
lemma Owns.alloc (ho : Owns p h n out fl) {malloc : Allocator ε} (junk : ε)
    (hout : ∀ h, malloc.new h < p.buf ∨ p.bufEnd < malloc.new h) :
    ∃ p' h' a fl', p.alloc malloc junk h = .ok (p', h', a) ∧ a ∉ out ∧
      Owns p' h' n (a :: out) fl' ∧ p'.buf = p.buf ∧ p'.bufEnd = p.bufEnd ∧
      (∀ b, b ≠ a → h'.cell b = h.cell b) := by
  by_cases hfull : p.capacity ≤ p.nalloc
  · obtain ⟨hnot, ho'⟩ := ho.put_block junk (malloc.fresh h) (hout h) hfull
    exact ⟨p, h.put (malloc.new h) junk, malloc.new h, fl, if_pos hfull, hnot, ho', rfl, rfl,
      fun b hb => Function.update_of_ne hb ..⟩
  · cases fl with
    | nil =>
        have h1 := ho.nalloc
        have h2 := ho.capacity
        simp only [List.length_nil] at h1
        omega
    | cons i fl =>
        obtain ⟨hnonneg, htoNat⟩ := toIndex_eq_some ho.chain.1
        have hi : i < n := ho.fl_lt List.mem_cons_self
        have hnot : p.node i ∉ out := ((ho.free_iff i).mp List.mem_cons_self).2
        obtain ⟨e, he⟩ := Heap.live_iff.mp (ho.node_live i hi)
        have hflag : p.flag (p.node i) = poolFreeFlag := by
          rw [ho.flag i hi, if_pos List.mem_cons_self]
        refine ⟨_, h, p.node i, fl, ?_, hnot, ho.alloc_node he, rfl, rfl, fun b _ => rfl⟩
        rw [MemPool.alloc, if_neg hfull, rtAssert_of_pos hnonneg, ok_bind]
        dsimp only
        rw [htoNat, deref_eq he, ok_bind, rtAssert_of_pos hflag]
        rfl

/-- A node goes to the front of the free link. -/
lemma Owns.free_node {i : ℕ} (ho : Owns p h n out fl) (hi : i < n) (ha : p.node i ∈ out) :
    Owns { p with
      freeNode := (i : ℤ)
      flag := Function.update p.flag (p.node i) poolFreeFlag
      nalloc := p.nalloc - 1 } (h.write (p.node i) fun e => PoolElt.setFirstInt e p.freeNode) n
      (out.erase (p.node i)) (i :: fl) := by
  have hnotfl : i ∉ fl := fun hif => ((ho.free_iff i).mp hif).2 ha
  have hmem : ∀ b, b ∈ out.erase (p.node i) ↔ b ≠ p.node i ∧ b ∈ out :=
    fun b => ho.out_nodup.mem_erase_iff
  obtain ⟨e, he⟩ := Heap.live_iff.mp (ho.out_live _ ha)
  constructor
  · exact ho.offset_pos
  · exact ho.capacity
  · exact ho.bufEnd
  · have hlen := ho.nalloc
    simp only [List.length_cons, Nat.cast_add, Nat.cast_one]
    omega
  · refine ⟨toIndex_natCast i, ?_⟩
    have hnext : nextFree p (h.write (p.node i) fun e => PoolElt.setFirstInt e p.freeNode) i =
        toIndex p.freeNode := by
      simp [nextFree, Heap.write, he, PoolElt.firstInt_setFirstInt]
    show Chain (nextFree p _) (nextFree p _ i) fl
    rw [hnext]
    refine ho.chain.congr fun j hj => ?_
    have hji : p.node j ≠ p.node i := fun hc => hnotfl (node_inj ho.offset_pos hc ▸ hj)
    simp [nextFree, Heap.write, Function.update_of_ne hji]
  · intro j
    show j ∈ i :: fl ↔ j < n ∧ p.node j ∉ out.erase (p.node i)
    rw [List.mem_cons, ho.free_iff j, hmem]
    rcases eq_or_ne j i with rfl | hji
    · simp [hi]
    · have hne : p.node j ≠ p.node i := fun hc => hji (node_inj ho.offset_pos hc)
      simp [hji, hne]
  · intro j hj
    show Function.update p.flag (p.node i) poolFreeFlag (p.node j) = _
    rcases eq_or_ne j i with rfl | hji
    · rw [Function.update_self, if_pos List.mem_cons_self]
    · rw [Function.update_of_ne fun hc => hji (node_inj ho.offset_pos hc), ho.flag j hj]
      simp [hji]
  · exact fun j hj => Heap.live_write.mpr (ho.node_live j hj)
  · exact ho.out_nodup.erase _
  · exact fun b hb => Heap.live_write.mpr (ho.out_live b ((hmem b).mp hb).2)
  · exact fun b hb => ho.out_cases b ((hmem b).mp hb).2

/-- A block goes back to `malloc`. -/
lemma Owns.free_block (ho : Owns p h n out fl) (hne : ∀ i < n, p.node i ≠ a) :
    Owns p (h.free a) n (out.erase a) fl := by
  have hmem : ∀ b, b ∈ out.erase a ↔ b ≠ a ∧ b ∈ out := fun b => ho.out_nodup.mem_erase_iff
  exact
    { ho with
      chain := ho.chain.congr fun i hi => by
        simp [nextFree, Heap.free, Function.update_of_ne (hne i (ho.fl_lt hi))]
      free_iff := fun i => by
        rw [ho.free_iff i, hmem]
        exact and_congr_right fun hi => ⟨fun hn hc => hn hc.2, fun hn hc => hn ⟨hne i hi, hc⟩⟩
      node_live := fun i hi => Heap.live_free.mpr ⟨hne i hi, ho.node_live i hi⟩
      out_nodup := ho.out_nodup.erase _
      out_live := fun b hb => by
        obtain ⟨hne, hb⟩ := (hmem b).mp hb
        exact Heap.live_free.mpr ⟨hne, ho.out_live b hb⟩
      out_cases := fun b hb => ho.out_cases b ((hmem b).mp hb).2 }

/-- **What is out comes back**, a node to the free link and a block to `malloc`. -/
lemma Owns.free (ho : Owns p h n out fl) (ha : a ∈ out) :
    ∃ p' h' fl', p.free h a = .ok (p', h') ∧ Owns p' h' n (out.erase a) fl' ∧
      p'.buf = p.buf ∧ p'.bufEnd = p.bufEnd ∧ (∀ b, b ≠ a → h'.cell b = h.cell b) := by
  have hlive := ho.out_live a ha
  rcases ho.out_cases a ha with ⟨i, hi, rfl⟩ | hrange
  · have hnotfl : i ∉ fl := fun hif => ((ho.free_iff i).mp hif).2 ha
    have hflag : p.flag (p.node i) = poolAllocFlag := by rw [ho.flag i hi, if_neg hnotfl]
    have hindex : (p.node i - p.buf) / p.offset = i := by
      rw [node, Nat.add_sub_cancel_left, Nat.mul_div_cancel _ ho.offset_pos]
    refine ⟨_, _, i :: fl, ?_, ho.free_node hi ha, rfl, rfl,
      fun b hb => Function.update_of_ne hb ..⟩
    rw [MemPool.free, if_neg (ho.node_range hi), rtAssert_of_pos hflag, ok_bind, assign_eq hlive,
      ok_bind, hindex]
    rfl
  · have hne : ∀ i < n, p.node i ≠ a := fun i hi he => ho.node_range hi (he ▸ hrange)
    refine ⟨p, h.free a, fl, ?_, ho.free_block hne, rfl, rfl,
      fun b hb => Function.update_of_ne hb ..⟩
    rw [MemPool.free, if_pos hrange, release_eq hlive]
    rfl

lemma initialNodes_node {buf offset i : ℕ} {zero : ε} (hpos : 0 < offset) (hi : i < n) :
    (initialNodes buf offset n zero).cell (buf + i * offset) =
      some (PoolElt.setFirstInt zero (if i + 1 < n then (i + 1 : ℕ) else -1)) := by
  have hsub : buf + i * offset - buf = i * offset := Nat.add_sub_cancel_left _ _
  have hdiv : i * offset / offset = i := Nat.mul_div_cancel _ hpos
  simp only [initialNodes, hsub, hdiv, Nat.mul_mod_left]
  rw [if_pos ⟨Nat.le_add_right _ _, trivial, hi⟩]

/-- A new pool has all its nodes. -/
lemma owns_new {os : Libc} (hos : os.Total) {buf eltSize : ℕ} {zero : ε} (hn : 0 < n)
    (hsize : n * (max eltSize 5 + 1) < 2 ^ 32) (hlast : (n - 1) * (max eltSize 5 + 1) < 2 ^ 31) :
    ∃ p h, MemPool.new os buf zero n eltSize = .ok (p, h) ∧
      p.buf = buf ∧ p.bufEnd = buf + n * (max eltSize 5 + 1) ∧ Owns p h n [] (List.range n) := by
  have helt : (if eltSize < 4 + 1 then 4 + 1 else eltSize) = max eltSize 5 := by
    split_ifs <;> omega
  set offset := max eltSize 5 + 1 with hoffset
  set p : MemPool := ⟨buf, buf + n * offset, 0, n, 0, max eltSize 5, offset, fun _ => poolFreeFlag⟩
    with hp
  have hrun : MemPool.new os buf zero n eltSize = .ok (p, initialNodes buf offset n zero) := by
    rw [MemPool.new, helt, rtAssert_of_pos (hos.malloc _), ok_bind, if_pos ⟨hn, hsize, hlast⟩]
    rfl
  have hpos : 0 < offset := Nat.succ_pos _
  have hcell : ∀ i < n, (initialNodes buf offset n zero).cell (p.node i) =
      some (PoolElt.setFirstInt zero (if i + 1 < n then (i + 1 : ℕ) else -1)) :=
    fun i hi => initialNodes_node hpos hi
  have hchain : ∀ m k, k + m = n → Chain (nextFree p (initialNodes buf offset n zero))
      (if k < n then some k else none) (List.range' k m) := by
    intro m
    induction m with
    | zero => exact fun k hk => if_neg (by omega)
    | succ m ih =>
        intro k hk
        rw [List.range'_succ, if_pos (by omega)]
        refine ⟨rfl, ?_⟩
        have hnext : nextFree p (initialNodes buf offset n zero) k =
            if k + 1 < n then some (k + 1) else none := by
          rw [nextFree, hcell k (by omega)]
          simp only [Option.bind_some, PoolElt.firstInt_setFirstInt]
          split_ifs
          · exact toIndex_natCast _
          · rfl
        rw [hnext]
        exact ih (k + 1) (by omega)
  refine ⟨p, _, hrun, rfl, rfl, ?_⟩
  constructor
  · exact hpos
  · rfl
  · rfl
  · simp [hp]
  · have := hchain n 0 (by omega)
    rw [if_pos hn, ← List.range_eq_range'] at this
    exact this
  · simp
  · intro i hi
    rw [if_pos (List.mem_range.mpr hi)]
  · exact fun i hi => Heap.live_iff.mpr ⟨_, hcell i hi⟩
  · exact List.nodup_nil
  · simp
  · simp

end Owns

end MemPool

end Axon
