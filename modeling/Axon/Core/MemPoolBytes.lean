import Axon.Core.MemPool
import Axon.Library.LittleEndian

/-!
# The bytes of the memory pool

`MemPool` threads its free link through the storage it hands out: the first four bytes of a free
node hold the index of the next one, and the byte behind the `elt_size_` bytes of a node is its
flag. Here is the pool over that storage.  Its clients may write anything into the bytes they were
given.

* **`loadInt`**, **`storeInt`** : an `int` in memory.
* **`BytePool`** : the fields of `MemPool`, the memory, and the blocks taken from `malloc`.
* **`BytePool.new`**, **`BytePool.alloc`**, **`BytePool.free`**, **`BytePool.put`** : the
  constructor, the member functions, and a client that writes.
* **`BytePool.view`**, **`BytePool.Holds`** : the bytes show a pool of records, `MemPool`, which
  owns its nodes.
* **`BytePool.Uses`** : the runs; **`BytePool.hands_out_once`** : in all of them every node has one
  owner and none is lost.
-/

namespace Axon

open Library

/-- Reads `*(int*)p`. -/
def loadInt (m : ℕ → UInt8) (a : ℕ) : ℤ := i32 (word32 m a)

/-- Writes `*(int*)p = z`. -/
def storeInt (m : ℕ → UInt8) (a : ℕ) (z : ℤ) : ℕ → UInt8 := blit m a (leBytes 4 z)

lemma loadInt_congr {m m' : ℕ → UInt8} {a : ℕ} (h : ∀ k < 4, m (a + k) = m' (a + k)) :
    loadInt m a = loadInt m' a := by
  rw [loadInt, loadInt, word32_congr h]

/-- **An `int` read back.** -/
lemma loadInt_storeInt (m : ℕ → UInt8) (a : ℕ) {z : ℤ} (hlo : -2 ^ 31 ≤ z) (hhi : z < 2 ^ 31) :
    loadInt (storeInt m a z) a = z := by
  have hwin : window (storeInt m a z) a 4 = leBytes 4 z := by
    have hself := window_blit_self m a (leBytes 4 z)
    rwa [length_leBytes] at hself
  have hword : (word32 (storeInt m a z) a : ℤ) = z % 256 ^ 4 := by
    rw [← leValue_window, hwin, leValue_leBytes]
  rw [loadInt, i32, u32_of_lt (by omega)]
  split_ifs <;> omega

lemma storeInt_of_outside (m : ℕ → UInt8) {a i : ℕ} (z : ℤ) (h : i < a ∨ a + 4 ≤ i) :
    storeInt m a z i = m i :=
  blit_of_outside m (by rwa [length_leBytes])

/-- The fields of `MemPool`, and the memory around it. -/
structure BytePool where
  buf : ℕ
  bufEnd : ℕ
  /-- Head of the free link: the index of a node, or `-1`. -/
  freeNode : ℤ
  capacity : ℤ
  nalloc : ℤ
  /-- Bytes of valid data in a node. -/
  eltSize : ℕ
  /-- Bytes from one node to the next. -/
  offset : ℕ
  /-- The memory, by address. -/
  mem : ℕ → UInt8
  /-- The blocks `alloc` has taken from `malloc` and `free` has not given back. -/
  blocks : List ℕ

namespace BytePool

/-- The address of the node with index `i`. -/
def node (b : BytePool) (i : ℕ) : ℕ := b.buf + i * b.offset

/-- `size()`. -/
def size (b : BytePool) : ℤ := b.nalloc

/-- The loop of the constructor, of which `k` turns are left: each node is linked to the next. -/
def initLink (buf offset : ℕ) : ℕ → ℕ → (ℕ → UInt8) → ℕ → UInt8
  | 0, _, m => m
  | k + 1, i, m => initLink buf offset k (i + 1) (storeInt m (buf + i * offset) (i + 1 : ℕ))

/-- The memory after the constructor: zeroed, each node linked to the next, and the last one to
none.
-/
def initMem (buf offset n : ℕ) (m : ℕ → UInt8) : ℕ → UInt8 :=
  let m := fun a => if buf ≤ a ∧ a < buf + n * offset then 0 else m a
  let m := initLink buf offset (n - 1) 0 m
  storeInt m (buf + (n - 1) * offset) (-1)

/-- `MemPool::MemPool`; `buf` is the address `malloc` returns, in the memory `m`. -/
def new (os : Libc) (m : ℕ → UInt8) (buf n eltSize : ℕ) : Except Fault BytePool := do
  let eltSize := if eltSize < 4 + 1 then 4 + 1 else eltSize
  let offset := eltSize + 1
  rtAssert "buf_ != NULL" ((os.malloc (u32 (n * offset))).isSome)
  if 0 < n ∧ n * offset < 2 ^ 32 ∧ (n - 1) * offset < 2 ^ 31 then
    pure { buf := buf
           bufEnd := buf + n * offset
           freeNode := 0
           capacity := n
           nalloc := 0
           eltSize := eltSize
           offset := offset
           mem := initMem buf offset n m
           blocks := [] }
  else .error .badAccess

/-- The node at `a`, with its flag, is in the storage of the pool. -/
def InPool (b : BytePool) (a : ℕ) : Prop := b.buf ≤ a ∧ a + b.eltSize < b.bufEnd

instance (b : BytePool) (a : ℕ) : Decidable (b.InPool a) :=
  inferInstanceAs (Decidable (b.buf ≤ a ∧ a + b.eltSize < b.bufEnd))

/-- `MemPool::alloc`; `addr` is the address `malloc` returns, if it is asked. -/
def alloc (b : BytePool) (addr : ℕ) : Except Fault (BytePool × ℕ) :=
  if b.capacity ≤ b.nalloc then .ok ({ b with blocks := addr :: b.blocks }, addr)
  else do
    rtAssert "free_node_ >= 0" (0 ≤ b.freeNode)
    let p := b.node b.freeNode.toNat
    if b.InPool p then
      let next := loadInt b.mem p
      rtAssert "*(p + elt_size_) == POOL_FREE_FLAG" ((b.mem (p + b.eltSize)).toNat = poolFreeFlag)
      pure ({ b with
        freeNode := next
        mem := Function.update b.mem (p + b.eltSize) (UInt8.ofNat poolAllocFlag)
        nalloc := b.nalloc + 1 }, p)
    else .error .badAccess

/-- `MemPool::free`. -/
def free (b : BytePool) (p : ℕ) : Except Fault BytePool :=
  if p < b.buf ∨ b.bufEnd < p then
    if p ∈ b.blocks then .ok { b with blocks := b.blocks.filter (· ≠ p) } else .error .badAccess
  else if b.InPool p then do
    rtAssert "*(pc + elt_size_) == POOL_ALLOC_FLAG"
      ((b.mem (p + b.eltSize)).toNat = poolAllocFlag)
    let n := (p - b.buf) / b.offset
    let m := storeInt b.mem p b.freeNode
    pure { b with
      mem := Function.update m (p + b.eltSize) (UInt8.ofNat poolFreeFlag)
      freeNode := n
      nalloc := b.nalloc - 1 }
  else .error .badAccess

/-- A client writes `bs` at the offset `k` of what it holds at `p`. -/
def put (b : BytePool) (p k : ℕ) (bs : List UInt8) : BytePool :=
  { b with mem := blit b.mem (p + k) bs }

/-! ## Nodes handed out and taken back -/

/-- `alloc` of a node. -/
lemma alloc_of_room {b : BytePool} {addr : ℕ} (hroom : ¬ b.capacity ≤ b.nalloc)
    (hnode : 0 ≤ b.freeNode) (hin : b.InPool (b.node b.freeNode.toNat))
    (hflag : (b.mem (b.node b.freeNode.toNat + b.eltSize)).toNat = poolFreeFlag) :
    b.alloc addr = .ok ({ b with
      freeNode := loadInt b.mem (b.node b.freeNode.toNat)
      mem := Function.update b.mem (b.node b.freeNode.toNat + b.eltSize)
        (UInt8.ofNat poolAllocFlag)
      nalloc := b.nalloc + 1 }, b.node b.freeNode.toNat) := by
  rw [alloc, if_neg hroom, rtAssert_of_pos hnode, ok_bind]
  dsimp only
  rw [if_pos hin, rtAssert_of_pos hflag]
  rfl

/-- `free` of a node. -/
lemma free_of_inPool {b : BytePool} {p : ℕ} (hin : b.InPool p)
    (hflag : (b.mem (p + b.eltSize)).toNat = poolAllocFlag) :
    b.free p = .ok { b with
      mem := Function.update (storeInt b.mem p b.freeNode) (p + b.eltSize)
        (UInt8.ofNat poolFreeFlag)
      freeNode := ((p - b.buf) / b.offset : ℕ)
      nalloc := b.nalloc - 1 } := by
  have hrange : ¬ (p < b.buf ∨ b.bufEnd < p) := by
    have hle := hin.1
    have hlt := hin.2
    omega
  rw [free, if_neg hrange, if_pos hin, rtAssert_of_pos hflag]
  rfl

/-! ## The storage of a new pool -/

/-- Nodes do not overlap. -/
lemma slot_apart (buf offset : ℕ) {i j : ℕ} (hij : i ≠ j) :
    buf + i * offset + offset ≤ buf + j * offset ∨
      buf + j * offset + offset ≤ buf + i * offset := by
  rcases Nat.lt_or_gt_of_ne hij with hlt | hlt
  · have hmul := Nat.mul_le_mul_right offset (Nat.succ_le_of_lt hlt)
    rw [Nat.succ_mul] at hmul
    omega
  · have hmul := Nat.mul_le_mul_right offset (Nat.succ_le_of_lt hlt)
    rw [Nat.succ_mul] at hmul
    omega

lemma node_apart (b : BytePool) {i j : ℕ} (hij : i ≠ j) :
    b.node i + b.offset ≤ b.node j ∨ b.node j + b.offset ≤ b.node i :=
  slot_apart b.buf b.offset hij

/-- The loop of the constructor writes the links only. -/
lemma initLink_of_outside {buf offset k i x : ℕ} {m : ℕ → UInt8}
    (h : ∀ j, i ≤ j → j < i + k → x < buf + j * offset ∨ buf + j * offset + 4 ≤ x) :
    initLink buf offset k i m x = m x := by
  induction k generalizing i m with
  | zero => rfl
  | succ k ih =>
      rw [initLink, ih fun j hj hlt => h j (by omega) (by omega)]
      exact storeInt_of_outside _ _ (h i le_rfl (by omega))

/-- **The links** after the loop of the constructor. -/
lemma loadInt_initLink {buf offset k i j : ℕ} {m : ℕ → UInt8} (hoff : 4 ≤ offset) (hij : i ≤ j)
    (hjk : j < i + k) (hsmall : i + k < 2 ^ 31) :
    loadInt (initLink buf offset k i m) (buf + j * offset) = (j + 1 : ℕ) := by
  induction k generalizing i m with
  | zero => omega
  | succ k ih =>
      rw [initLink]
      rcases eq_or_ne j i with rfl | hne
      · refine (loadInt_congr fun x hx => initLink_of_outside ?_).trans
          (loadInt_storeInt _ _ (by omega) (by omega))
        intro j' hj' _
        have hapart := slot_apart buf offset (show j ≠ j' by omega)
        omega
      · exact ih (by omega) (by omega) (by omega)

/-- The links of a new pool. -/
lemma loadInt_initMem {buf offset n i : ℕ} (m : ℕ → UInt8) (hoff : 4 ≤ offset) (hi : i < n)
    (hsmall : n < 2 ^ 31) : loadInt (initMem buf offset n m) (buf + i * offset) =
      if i + 1 < n then ((i + 1 : ℕ) : ℤ) else -1 := by
  rw [initMem]
  split_ifs with hlast
  · generalize (fun a => if buf ≤ a ∧ a < buf + n * offset then 0 else m a) = m₀
    have hlink : loadInt (initLink buf offset (n - 1) 0 m₀) (buf + i * offset) = (i + 1 : ℕ) :=
      loadInt_initLink hoff (Nat.zero_le i) (by omega) (by omega)
    rw [← hlink]
    refine loadInt_congr fun k hk => ?_
    have hapart := slot_apart buf offset (show i ≠ n - 1 by omega)
    exact storeInt_of_outside _ _ (by omega)
  · obtain rfl : i = n - 1 := by omega
    exact loadInt_storeInt _ _ (by decide) (by decide)

/-- The flags of a new pool. -/
lemma initMem_flag {buf eltSize n i : ℕ} (m : ℕ → UInt8) (helt : 4 ≤ eltSize) (hi : i < n) :
    initMem buf (eltSize + 1) n m (buf + i * (eltSize + 1) + eltSize) = 0 := by
  have hmul := Nat.mul_le_mul_right (eltSize + 1) (Nat.succ_le_of_lt hi)
  rw [Nat.succ_mul] at hmul
  have hlink : ∀ j, buf + i * (eltSize + 1) + eltSize < buf + j * (eltSize + 1) ∨
      buf + j * (eltSize + 1) + 4 ≤ buf + i * (eltSize + 1) + eltSize := by
    intro j
    rcases eq_or_ne i j with rfl | hne
    · omega
    · have hapart := slot_apart buf (eltSize + 1) hne
      omega
  rw [initMem, storeInt_of_outside _ _ (hlink _), initLink_of_outside fun j _ _ => hlink j]
  exact if_pos (by omega)

/-! ## The pool of records the bytes show -/

/-- A record of which the pool knows the first `int` only. -/
instance : PoolElt ℤ where
  firstInt z := z
  setFirstInt _ z := z
  firstInt_setFirstInt _ _ := rfl

lemma firstInt_int (z : ℤ) : PoolElt.firstInt z = z := rfl

/-- The pool of records. -/
def view (b : BytePool) : MemPool where
  buf := b.buf
  bufEnd := b.bufEnd
  freeNode := b.freeNode
  capacity := b.capacity
  nalloc := b.nalloc
  eltSize := b.eltSize
  offset := b.offset
  flag a := (b.mem (a + b.eltSize)).toNat

/-- **The bytes hold**: they show a pool of records `h` that owns its nodes; of the `n` nodes the
ones in `out` are handed out and the ones in `fl` free. -/
structure Holds (b : BytePool) (n : ℕ) (out fl : List ℕ) (h : Heap ℤ) : Prop where
  owns : MemPool.Owns b.view h n out fl
  shows : ∀ i < n, h.cell (b.node i) = some (loadInt b.mem (b.node i))
  live_iff : ∀ a, a < b.buf ∨ b.bufEnd < a → (h.Live a ↔ a ∈ b.blocks)
  out_iff : ∀ a, a < b.buf ∨ b.bufEnd < a → (a ∈ out ↔ a ∈ b.blocks)
  away : ∀ a ∈ b.blocks, a + b.eltSize ≤ b.buf ∨ b.bufEnd < a
  eltSize : 5 ≤ b.eltSize
  offset : b.offset = b.eltSize + 1
  small : n < 2 ^ 31
  head : -1 ≤ b.freeNode
  links : ∀ i ∈ fl, -1 ≤ loadInt b.mem (b.node i)

/-- An address `malloc` may return: the block there is not in use, and does not overlap the pool,
nor does it begin right behind it. -/
def Fresh (b : BytePool) (addr : ℕ) : Prop :=
  addr ∉ b.blocks ∧ (addr + b.eltSize ≤ b.buf ∨ b.bufEnd < addr)

instance (b : BytePool) (addr : ℕ) : Decidable (b.Fresh addr) :=
  inferInstanceAs (Decidable (addr ∉ b.blocks ∧ (addr + b.eltSize ≤ b.buf ∨ b.bufEnd < addr)))

namespace Holds

variable {b : BytePool} {n : ℕ} {out fl : List ℕ} {h : Heap ℤ}

lemma bufEnd_eq (hb : Holds b n out fl h) : b.bufEnd = b.buf + n * b.offset := hb.owns.bufEnd

lemma node_le (hb : Holds b n out fl h) {i : ℕ} (hi : i < n) :
    b.buf ≤ b.node i ∧ b.node i + b.offset ≤ b.bufEnd := by
  have hmul := Nat.mul_le_mul_right b.offset (Nat.succ_le_of_lt hi)
  rw [Nat.succ_mul] at hmul
  rw [hb.bufEnd_eq, node]
  omega

lemma inPool (hb : Holds b n out fl h) {i : ℕ} (hi : i < n) : b.InPool (b.node i) := by
  have hle := hb.node_le hi
  have hoff := hb.offset
  exact ⟨hle.1, by omega⟩

/-- The head of the free link and the links fit in an `int`. -/
lemma freeNode_lt (hb : Holds b n out fl h) : b.freeNode < 2 ^ 31 := by
  have hchain := hb.owns.chain
  by_cases hneg : b.freeNode < 0
  · omega
  · have hhead := hchain.head_eq
    rw [show (b.view).freeNode = b.freeNode from rfl, MemPool.toIndex, if_pos (by omega)] at hhead
    have hmem : b.freeNode.toNat ∈ fl := List.mem_of_mem_head? hhead.symm
    have hlt := hb.owns.fl_lt hmem
    have hsmall := hb.small
    omega

lemma node_not_outside (hb : Holds b n out fl h) {i : ℕ} (hi : i < n) :
    ¬ (b.node i < b.buf ∨ b.bufEnd < b.node i) :=
  hb.owns.node_range hi

lemma out_cases (hb : Holds b n out fl h) {a : ℕ} (ha : a ∈ out) :
    (∃ i < n, a = b.node i) ∨ a < b.buf ∨ b.bufEnd < a :=
  hb.owns.out_cases a ha

lemma node_inj (hb : Holds b n out fl h) {i j : ℕ} (hij : b.node i = b.node j) : i = j :=
  MemPool.node_inj hb.owns.offset_pos hij

/-- Every byte of a node belongs to no other node, and not to its own flag. -/
lemma ne_flag (hb : Holds b n out fl h) {i j k : ℕ} (hk : k < 4) :
    b.node j + k ≠ b.node i + b.eltSize := by
  have helt := hb.eltSize
  have hoff := hb.offset
  rcases eq_or_ne j i with rfl | hne
  · omega
  · have hapart := node_apart b hne
    omega

/-- A pool with a free node is not full. -/
lemma room {i : ℕ} (hb : Holds b n out (i :: fl) h) : ¬ b.capacity ≤ b.nalloc := by
  have hlen : b.nalloc + (i :: fl).length = n := hb.owns.nalloc
  have hcap : b.capacity = n := hb.owns.capacity
  simp only [List.length_cons, Nat.cast_add, Nat.cast_one] at hlen
  omega

/-- A pool without one is. -/
lemma full (hb : Holds b n out [] h) : b.capacity ≤ b.nalloc := by
  have hlen : b.nalloc + ([] : List ℕ).length = n := hb.owns.nalloc
  have hcap : b.capacity = n := hb.owns.capacity
  simp only [List.length_nil] at hlen
  omega

/-- `alloc` when all nodes are out. -/
lemma alloc_block (hb : Holds b n out fl h) (hfull : b.capacity ≤ b.nalloc) {addr : ℕ}
    (hfresh : b.Fresh addr) :
    addr ∉ out ∧
      Holds { b with blocks := addr :: b.blocks } n (addr :: out) fl (h.put addr 0) := by
  have helt := hb.eltSize
  have hout : addr < b.buf ∨ b.bufEnd < addr := hfresh.2.imp_left fun hle => by omega
  have hnew : ¬ h.Live addr := fun hlive => hfresh.1 ((hb.live_iff addr hout).mp hlive)
  obtain ⟨hnot, howns⟩ := hb.owns.put_block 0 hnew hout hfull
  refine ⟨hnot, howns, ?_, ?_, ?_, ?_, hb.eltSize, hb.offset, hb.small, hb.head, hb.links⟩
  · intro i hi
    have hne : b.node i ≠ addr := fun heq => hb.node_not_outside hi (heq ▸ hout)
    exact (Function.update_of_ne hne ..).trans (hb.shows i hi)
  · intro a ha
    rw [Heap.live_put, List.mem_cons, hb.live_iff a ha]
  · intro a ha
    rw [List.mem_cons, List.mem_cons, hb.out_iff a ha]
  · intro a ha
    rcases List.mem_cons.mp ha with rfl | ha
    · exact hfresh.2
    · exact hb.away a ha

/-- `alloc` when a node is free. -/
lemma alloc_node {i : ℕ} (hb : Holds b n out (i :: fl) h) (addr : ℕ) :
    ∃ b', b.alloc addr = .ok (b', b.node i) ∧ b'.blocks = b.blocks ∧ (∀ j, b'.node j = b.node j) ∧
      Holds b' n (b.node i :: out) fl h := by
  have howns := hb.owns
  have hi : i < n := howns.fl_lt List.mem_cons_self
  obtain ⟨hnonneg, htoNat⟩ := MemPool.toIndex_eq_some howns.chain.1
  have hflag : (b.mem (b.node i + b.eltSize)).toNat = poolFreeFlag :=
    (howns.flag i hi).trans (if_pos List.mem_cons_self)
  set b' : BytePool :=
    { b with
      freeNode := loadInt b.mem (b.node i)
      mem := Function.update b.mem (b.node i + b.eltSize) (UInt8.ofNat poolAllocFlag)
      nalloc := b.nalloc + 1 } with hb'
  have hload : ∀ j, loadInt b'.mem (b.node j) = loadInt b.mem (b.node j) := fun j =>
    loadInt_congr fun k hk => Function.update_of_ne (hb.ne_flag hk) ..
  have hflags : ∀ j < n, (b'.mem (b.node j + b.eltSize)).toNat =
      Function.update b.view.flag (b.node i) poolAllocFlag (b.node j) := by
    intro j _
    rcases eq_or_ne (b.node j) (b.node i) with heq | hne
    · rw [heq, Function.update_self, hb']
      dsimp only
      rw [Function.update_self]
      rfl
    · rw [Function.update_of_ne hne, hb']
      dsimp only
      rw [Function.update_of_ne fun heq => hne (Nat.add_right_cancel heq)]
      rfl
  have hnode : ∀ j, b'.node j = b.node j := by
    intro j
    rw [node, node]
  refine ⟨b', ?_, rfl, hnode, ?_⟩
  · have hok := @alloc_of_room b addr hb.room hnonneg
    rw [show b.freeNode.toNat = i from htoNat] at hok
    exact hok (hb.inPool hi) hflag
  · refine ⟨?_, ?_, hb.live_iff, ?_, hb.away, hb.eltSize, hb.offset, hb.small, ?_, ?_⟩
    · exact (howns.alloc_node (hb.shows i hi)).reflag hflags
    · intro j hj
      rw [hnode, hload]
      exact hb.shows j hj
    · intro a ha
      rw [List.mem_cons, hb.out_iff a ha]
      refine ⟨fun hor => hor.resolve_left ?_, Or.inr⟩
      rintro rfl
      exact hb.node_not_outside hi ha
    · exact hb.links i List.mem_cons_self
    · intro j hj
      rw [hnode, hload]
      exact hb.links j (List.mem_cons_of_mem i hj)

/-- `free` of a node. -/
lemma free_node (hb : Holds b n out fl h) {i : ℕ} (hi : i < n) (hout : b.node i ∈ out) :
    ∃ b' h', b.free (b.node i) = .ok b' ∧
      Holds b' n (out.erase (b.node i)) (i :: fl) h' := by
  have howns := hb.owns
  have hnotfl : i ∉ fl := fun hmem => ((howns.free_iff i).mp hmem).2 hout
  have hflag : (b.mem (b.node i + b.eltSize)).toNat = poolAllocFlag :=
    (howns.flag i hi).trans (if_neg hnotfl)
  have hpos : 0 < b.offset := howns.offset_pos
  have hindex : (b.node i - b.buf) / b.offset = i := by
    rw [node, Nat.add_sub_cancel_left, Nat.mul_div_cancel _ hpos]
  have helt := hb.eltSize
  have hoff := hb.offset
  set b' : BytePool :=
    { b with
      mem := Function.update (storeInt b.mem (b.node i) b.freeNode) (b.node i + b.eltSize)
        (UInt8.ofNat poolFreeFlag)
      freeNode := i
      nalloc := b.nalloc - 1 } with hb'
  have hnode : ∀ j, b'.node j = b.node j := by
    intro j
    rw [node, node]
  -- Outside the node everything is as it was.
  have hmem : ∀ j ≠ i, ∀ k ≤ b.eltSize, b'.mem (b.node j + k) = b.mem (b.node j + k) := by
    intro j hne k hk
    have hapart := node_apart b hne
    rw [hb']
    dsimp only
    rw [Function.update_of_ne (by omega), storeInt_of_outside _ _ (by omega)]
  have hload : ∀ j ≠ i, loadInt b'.mem (b.node j) = loadInt b.mem (b.node j) :=
    fun j hne => loadInt_congr fun k hk => hmem j hne k (by omega)
  have hself : loadInt b'.mem (b.node i) = b.freeNode := by
    have hhead := hb.head
    rw [← loadInt_storeInt b.mem (b.node i) (z := b.freeNode) (by omega) hb.freeNode_lt]
    exact loadInt_congr fun k hk => Function.update_of_ne (by omega) ..
  have hflags : ∀ j < n, (b'.mem (b.node j + b.eltSize)).toNat =
      Function.update b.view.flag (b.node i) poolFreeFlag (b.node j) := by
    intro j _
    rcases eq_or_ne j i with rfl | hne
    · rw [Function.update_self, hb']
      dsimp only
      rw [Function.update_self]
      rfl
    · rw [Function.update_of_ne fun heq => hne (hb.node_inj heq),
        hmem j hne _ le_rfl]
      rfl
  refine ⟨b', h.write (b.node i) fun _ => b.freeNode, ?_, ?_⟩
  · rw [free_of_inPool (hb.inPool hi) hflag, hindex]
  · refine ⟨(howns.free_node hi hout).reflag hflags, ?_, ?_, ?_, hb.away, hb.eltSize, hb.offset,
      hb.small, ?_, ?_⟩
    · intro j hj
      rw [hnode]
      rcases eq_or_ne j i with rfl | hne
      · simp [Heap.write, hb.shows j hj, hself]
      · rw [hload j hne]
        refine (Function.update_of_ne ?_ ..).trans (hb.shows j hj)
        exact fun heq => hne (hb.node_inj heq)
    · intro a ha
      rw [Heap.live_write]
      exact hb.live_iff a ha
    · intro a ha
      rw [howns.out_nodup.mem_erase_iff, hb.out_iff a ha]
      refine and_iff_right_of_imp fun _ => ?_
      rintro rfl
      exact hb.node_not_outside hi ha
    · show (-1 : ℤ) ≤ (i : ℤ)
      omega
    · intro j hj
      rw [hnode]
      rcases List.mem_cons.mp hj with rfl | hj
      · rw [hself]
        exact hb.head
      · rw [hload j fun heq => hnotfl (heq ▸ hj)]
        exact hb.links j hj

/-- `free` of a block. -/
lemma free_block (hb : Holds b n out fl h) {a : ℕ} (hrange : a < b.buf ∨ b.bufEnd < a)
    (hout : a ∈ out) :
    ∃ b' h', b.free a = .ok b' ∧
      Holds b' n (out.erase a) fl h' := by
  have hne : ∀ i < n, b.node i ≠ a := fun i hi heq => hb.node_not_outside hi (heq ▸ hrange)
  refine ⟨{ b with blocks := b.blocks.filter (· ≠ a) }, h.free a, ?_,
    hb.owns.free_block hne, ?_, ?_, ?_, ?_, hb.eltSize, hb.offset, hb.small, hb.head, hb.links⟩
  · rw [free, if_pos hrange, if_pos ((hb.out_iff a hrange).mp hout)]
  · intro i hi
    exact (Function.update_of_ne (hne i hi) ..).trans (hb.shows i hi)
  · intro c hc
    rw [Heap.live_free, hb.live_iff c hc]
    simp [and_comm]
  · intro c hc
    rw [hb.owns.out_nodup.mem_erase_iff, hb.out_iff c hc]
    simp [and_comm]
  · exact fun c hc => hb.away c (List.mem_filter.mp hc).1

/-- **What is out comes back.** -/
lemma free (hb : Holds b n out fl h) {a : ℕ} (hout : a ∈ out) :
    ∃ b' fl' h', b.free a = .ok b' ∧
      Holds b' n (out.erase a) fl' h' := by
  rcases hb.out_cases hout with ⟨i, hi, rfl⟩ | hrange
  · obtain ⟨b', h', hok, hb'⟩ := hb.free_node hi hout
    exact ⟨b', _, h', hok, hb'⟩
  · obtain ⟨b', h', hok, hb'⟩ := hb.free_block hrange hout
    exact ⟨b', _, h', hok, hb'⟩

/-- **A client writes** what it likes into the bytes it holds. -/
lemma put (hb : Holds b n out fl h) {a k : ℕ} {bs : List UInt8} (hout : a ∈ out)
    (hk : k + bs.length ≤ b.eltSize) : ∃ h', Holds (b.put a k bs) n out fl h' := by
  have hoff := hb.offset
  have helt := hb.eltSize
  have hnode : ∀ j, (b.put a k bs).node j = b.node j := by
    intro j
    rw [node, node]
    rfl
  rcases hb.out_cases hout with ⟨i, hi, rfl⟩ | hrange
  · have hmem : ∀ j ≠ i, ∀ k' ≤ b.eltSize,
        (b.put (b.node i) k bs).mem (b.node j + k') = b.mem (b.node j + k') := by
      intro j hne k' hk'
      have hapart := node_apart b hne
      exact blit_of_outside _ (by omega)
    have hfree : ∀ j ∈ fl, j ≠ i := by
      rintro j hj rfl
      exact ((hb.owns.free_iff j).mp hj).2 hout
    have hload : ∀ j ≠ i, loadInt (b.put (b.node i) k bs).mem (b.node j) =
        loadInt b.mem (b.node j) :=
      fun j hne => loadInt_congr fun k' hk' => hmem j hne k' (by omega)
    refine ⟨h.write (b.node i) fun _ => loadInt (b.put (b.node i) k bs).mem (b.node i), ?_, ?_, ?_,
      hb.out_iff, hb.away, hb.eltSize, hb.offset, hb.small, hb.head, ?_⟩
    · refine (hb.owns.congr (fun _ => Heap.live_write) ?_).reflag ?_
      · intro c hc
        refine Function.update_of_ne ?_ ..
        rintro rfl
        exact hc hout
      · intro j _
        rcases eq_or_ne j i with rfl | hne
        · exact congrArg UInt8.toNat (blit_of_outside b.mem (i := b.node j + b.eltSize) (by omega))
        · exact congrArg UInt8.toNat (hmem j hne _ le_rfl)
    · intro j hj
      rw [hnode]
      rcases eq_or_ne j i with rfl | hne
      · simp [Heap.write, hb.shows j hj]
      · rw [hload j hne]
        refine (Function.update_of_ne ?_ ..).trans (hb.shows j hj)
        exact fun heq => hne (hb.node_inj heq)
    · intro c hc
      rw [Heap.live_write]
      exact hb.live_iff c hc
    · intro j hj
      rw [hnode, hload j (hfree j hj)]
      exact hb.links j hj
  · have haway := hb.away a ((hb.out_iff a hrange).mp hout)
    have hmem : ∀ j < n, ∀ k' ≤ b.eltSize,
        (b.put a k bs).mem (b.node j + k') = b.mem (b.node j + k') := by
      intro j hj k' hk'
      have hle := hb.node_le hj
      exact blit_of_outside _ (by omega)
    have hload : ∀ j < n, loadInt (b.put a k bs).mem (b.node j) = loadInt b.mem (b.node j) :=
      fun j hj => loadInt_congr fun k' hk' => hmem j hj k' (by omega)
    refine ⟨h, ?_, ?_, hb.live_iff, hb.out_iff, hb.away, hb.eltSize, hb.offset, hb.small, hb.head,
      ?_⟩
    · exact hb.owns.reflag fun j hj => congrArg UInt8.toNat (hmem j hj _ le_rfl)
    · intro j hj
      rw [hnode, hload j hj]
      exact hb.shows j hj
    · intro j hj
      rw [hnode, hload j (hb.owns.fl_lt hj)]
      exact hb.links j hj

/-- The sizes for which the constructor returns. -/
lemma sizes_of_new {os : Libc} {m : ℕ → UInt8} {buf eltSize : ℕ}
    (hok : BytePool.new os m buf n eltSize = .ok b) :
    0 < n ∧ n * (max eltSize 5 + 1) < 2 ^ 32 ∧ (n - 1) * (max eltSize 5 + 1) < 2 ^ 31 := by
  have helt : (if eltSize < 4 + 1 then 4 + 1 else eltSize) = max eltSize 5 := by
    split_ifs <;> omega
  obtain ⟨-, -, hok⟩ := bind_eq_ok hok
  rw [helt] at hok
  split_ifs at hok with hsizes
  exact hsizes

/-- **A new pool** has all its nodes. -/
lemma ofNew {os : Libc} (hos : os.Total) (m : ℕ → UInt8) (buf : ℕ) {eltSize : ℕ} (hn : 0 < n)
    (hsize : n * (max eltSize 5 + 1) < 2 ^ 32) (hlast : (n - 1) * (max eltSize 5 + 1) < 2 ^ 31) :
    ∃ b h, BytePool.new os m buf n eltSize = .ok b ∧ Holds b n [] (List.range n) h := by
  have helt : (if eltSize < 4 + 1 then 4 + 1 else eltSize) = max eltSize 5 := by
    split_ifs <;> omega
  obtain ⟨p, h, hp, -, -, howns⟩ : ∃ p h, MemPool.new os buf (0 : ℤ) n eltSize = .ok (p, h) ∧
      p.buf = buf ∧ p.bufEnd = buf + n * (max eltSize 5 + 1) ∧
      MemPool.Owns p h n [] (List.range n) := MemPool.owns_new hos hn hsize hlast
  rw [MemPool.new, helt, rtAssert_of_pos (hos.malloc _), ok_bind, if_pos ⟨hn, hsize, hlast⟩] at hp
  obtain ⟨rfl, rfl⟩ := Prod.mk.inj (Except.ok.inj hp)
  have hcount : n < 2 ^ 31 := by
    have hmul : n * 6 ≤ n * (max eltSize 5 + 1) := Nat.mul_le_mul_left n (by omega)
    omega
  have hload : ∀ i < n, loadInt (initMem buf (max eltSize 5 + 1) n m)
      (buf + i * (max eltSize 5 + 1)) = if i + 1 < n then ((i + 1 : ℕ) : ℤ) else -1 :=
    fun i hi => loadInt_initMem m (by omega) hi hcount
  refine ⟨⟨buf, buf + n * (max eltSize 5 + 1), 0, n, 0, max eltSize 5, max eltSize 5 + 1,
    initMem buf (max eltSize 5 + 1) n m, []⟩, MemPool.initialNodes buf (max eltSize 5 + 1) n 0,
    ?_, ?_, ?_, ?_, ?_, ?_, ?_, rfl, hcount, ?_, ?_⟩
  · rw [BytePool.new, helt, rtAssert_of_pos (hos.malloc _), ok_bind, if_pos ⟨hn, hsize, hlast⟩]
    rfl
  · refine howns.reflag fun i hi => ?_
    exact congrArg UInt8.toNat (initMem_flag m (by omega) hi)
  · intro i hi
    refine (MemPool.initialNodes_node (Nat.succ_pos _) hi).trans ?_
    exact congrArg some (hload i hi).symm
  · intro a ha
    refine iff_of_false (fun hlive => hlive (if_neg ?_)) List.not_mem_nil
    rintro ⟨hle, -, hdiv⟩
    have hlt : a - buf < n * (max eltSize 5 + 1) :=
      (Nat.div_lt_iff_lt_mul (Nat.succ_pos _)).mp hdiv
    simp only at ha
    omega
  · intro a _
    simp
  · simp
  · exact le_max_right eltSize 5
  · show (-1 : ℤ) ≤ 0
    decide
  · intro i hi
    refine le_of_le_of_eq ?_ (hload i (List.mem_range.mp hi)).symm
    split_ifs <;> omega

end Holds

/-! ## Runs -/

/-- **A run**: calls of `alloc` and `free` and writes of the clients; `out` are the pointers handed
out and not freed, the latest first. -/
inductive Uses (n eltSize : ℕ) : BytePool → List ℕ → Prop
  | new {os : Libc} {m : ℕ → UInt8} {buf : ℕ} {b : BytePool} (hos : os.Total)
      (hstep : BytePool.new os m buf n eltSize = .ok b) : Uses n eltSize b []
  | alloc {b b' : BytePool} {out : List ℕ} {addr a : ℕ} (hrun : Uses n eltSize b out)
      (hfresh : b.Fresh addr) (hstep : b.alloc addr = .ok (b', a)) : Uses n eltSize b' (a :: out)
  | free {b b' : BytePool} {out : List ℕ} {a : ℕ} (hrun : Uses n eltSize b out) (hout : a ∈ out)
      (hstep : b.free a = .ok b') : Uses n eltSize b' (out.erase a)
  | put {b : BytePool} {out : List ℕ} {a k : ℕ} {bs : List UInt8} (hrun : Uses n eltSize b out)
      (hout : a ∈ out) (hk : k + bs.length ≤ b.eltSize) : Uses n eltSize (b.put a k bs) out

/-- The free link from `z` on: these nodes, and then `-1`. -/
def FreeLink (b : BytePool) : ℤ → List ℕ → Prop
  | z, [] => z = -1
  | z, i :: l => z = i ∧ FreeLink b (loadInt b.mem (b.node i)) l

/-- Calls of `alloc`, one after the other. -/
def allocs : BytePool → List ℕ → Except Fault (BytePool × List ℕ)
  | b, [] => .ok (b, [])
  | b, addr :: addrs => do
      let (b, a) ← b.alloc addr
      let (b, as) ← allocs b addrs
      pure (b, a :: as)

/-- **Every node has one owner, and none is lost.** -/
structure Sound (b : BytePool) (n : ℕ) (out : List ℕ) : Prop where
  /-- No pointer is out twice. -/
  nodup : out.Nodup
  slot : ∀ a ∈ out, (∃ i < n, a = b.node i) ∨ a ∈ b.blocks
  /-- The free link has no cycle, ends in `-1`, and lists the nodes that are not out. -/
  link : ∃ fl, FreeLink b b.freeNode fl ∧ fl.Nodup ∧ ∀ i, i ∈ fl ↔ i < n ∧ b.node i ∉ out
  size : b.size = (List.range n).countP fun i => b.node i ∈ out
  /-- `alloc` returns what is not out, and asks `malloc` exactly if all nodes are. -/
  alloc : ∀ addr, b.Fresh addr → ∃ b' a, b.alloc addr = .ok (b', a) ∧ a ∉ out ∧
    if ∀ i < n, b.node i ∈ out then a = addr ∧ b'.blocks = addr :: b.blocks
    else (∃ i < n, a = b.node i) ∧ b'.blocks = b.blocks
  free : ∀ a ∈ out, ∃ b', b.free a = .ok b'
  /-- When all is freed, the next `n` calls of `alloc` return different nodes. -/
  again : out = [] → ∀ addrs : List ℕ, addrs.length = n → ∃ b' as, b.allocs addrs = .ok (b', as) ∧
    as.length = n ∧ as.Nodup ∧ ∀ a ∈ as, ∃ i < n, a = b.node i

namespace Holds

variable {b : BytePool} {n : ℕ} {out fl : List ℕ} {h : Heap ℤ}

/-- **A node or a block is handed out** that was not out. -/
lemma alloc (hb : Holds b n out fl h) {addr : ℕ} (hfresh : b.Fresh addr) :
    ∃ b' a fl' h', b.alloc addr = .ok (b', a) ∧ Holds b' n (a :: out) fl' h' ∧ a ∉ out ∧
      if ∀ i < n, b.node i ∈ out then a = addr ∧ b'.blocks = addr :: b.blocks
      else (∃ i < n, a = b.node i) ∧ b'.blocks = b.blocks := by
  cases fl with
  | nil =>
      have hall : ∀ i < n, b.node i ∈ out := by
        intro i hi
        by_contra hnot
        exact List.not_mem_nil ((hb.owns.free_iff i).mpr ⟨hi, hnot⟩)
      obtain ⟨hnot, hb'⟩ := hb.alloc_block hb.full hfresh
      exact ⟨_, addr, [], _, if_pos hb.full, hb', hnot, by rw [if_pos hall]; exact ⟨rfl, rfl⟩⟩
  | cons i fl =>
      obtain ⟨hi, hnot⟩ := (hb.owns.free_iff i).mp List.mem_cons_self
      obtain ⟨b', hok, hblocks, -, hb'⟩ := hb.alloc_node addr
      refine ⟨b', b.node i, fl, h, hok, hb', hnot, ?_⟩
      rw [if_neg fun hall => hnot (hall i hi)]
      exact ⟨⟨i, hi, rfl⟩, hblocks⟩

/-- Calls of `alloc` while nodes are free. -/
lemma allocs (hb : Holds b n out fl h) {addrs : List ℕ} (hlen : addrs.length ≤ fl.length) :
    ∃ b' as fl' h', b.allocs addrs = .ok (b', as) ∧ as.length = addrs.length ∧
      Holds b' n (as.reverse ++ out) fl' h' ∧ ∀ a ∈ as, ∃ i < n, a = b.node i := by
  induction addrs generalizing b out fl h with
  | nil => exact ⟨b, [], fl, h, rfl, rfl, hb, by simp⟩
  | cons addr addrs ih =>
      cases fl with
      | nil => exact absurd hlen (by simp)
      | cons i fl =>
          obtain ⟨b₁, hok, -, hframe, hb₁⟩ := hb.alloc_node addr
          obtain ⟨b', as, fl', h', hoks, hlens, hb', hnodes⟩ :=
            ih hb₁ (Nat.le_of_succ_le_succ hlen)
          refine ⟨b', b.node i :: as, fl', h', ?_, congrArg (· + 1) hlens, ?_, ?_⟩
          · rw [BytePool.allocs, hok, ok_bind]
            dsimp only
            rw [hoks]
            rfl
          · rw [List.reverse_cons, List.append_assoc]
            exact hb'
          · intro a ha
            rcases List.mem_cons.mp ha with rfl | ha
            · exact ⟨i, hb.owns.fl_lt List.mem_cons_self, rfl⟩
            · obtain ⟨j, hj, rfl⟩ := hnodes a ha
              exact ⟨j, hj, hframe j⟩

lemma freeLink (hb : Holds b n out fl h) : FreeLink b b.freeNode fl := by
  have hall : ∀ i ∈ fl, i < n ∧ -1 ≤ loadInt b.mem (b.node i) :=
    fun i hi => ⟨hb.owns.fl_lt hi, hb.links i hi⟩
  have hgen : ∀ (l : List ℕ) (z : ℤ), -1 ≤ z → (∀ i ∈ l, i < n ∧ -1 ≤ loadInt b.mem (b.node i)) →
      Chain (b.view.nextFree h) (MemPool.toIndex z) l → FreeLink b z l := by
    intro l
    induction l with
    | nil =>
        intro z hz _ hchain
        have hneg : ¬ 0 ≤ z := by
          intro hnonneg
          rw [Chain, MemPool.toIndex, if_pos hnonneg] at hchain
          exact absurd hchain (Option.some_ne_none _)
        show z = -1
        omega
    | cons i l ih =>
        intro z hz hl hchain
        obtain ⟨hi, hload⟩ := hl i List.mem_cons_self
        obtain ⟨hnonneg, htoNat⟩ := MemPool.toIndex_eq_some hchain.1
        refine ⟨by omega, ih _ hload (fun j hj => hl j (List.mem_cons_of_mem i hj)) ?_⟩
        have hnext : b.view.nextFree h i = MemPool.toIndex (loadInt b.mem (b.node i)) := by
          rw [MemPool.nextFree, show b.view.node i = b.node i from rfl, hb.shows i hi,
            Option.bind_some, firstInt_int]
        rw [← hnext]
        exact hchain.2
  exact hgen fl b.freeNode hb.head hall hb.owns.chain

lemma size_eq (hb : Holds b n out fl h) :
    b.size = (List.range n).countP fun i => b.node i ∈ out := by
  have hperm : fl.Perm ((List.range n).filter fun i => ¬ b.node i ∈ out) := by
    refine (List.perm_ext_iff_of_nodup hb.owns.chain.nodup (List.nodup_range.filter _)).mpr ?_
    intro i
    rw [hb.owns.free_iff i, List.mem_filter, List.mem_range]
    simp only [decide_eq_true_eq]
    rfl
  have hlen := hperm.length_eq
  have hcount := List.length_eq_countP_add_countP (l := List.range n)
    fun i => decide (b.node i ∈ out)
  rw [← List.countP_eq_length_filter] at hlen
  simp only [List.length_range, decide_not, decide_eq_true_eq] at hcount hlen
  have hnalloc : b.nalloc + fl.length = n := hb.owns.nalloc
  rw [size]
  omega

end Holds

lemma Holds.sound {b : BytePool} {n : ℕ} {out fl : List ℕ} {h : Heap ℤ} (hb : Holds b n out fl h) :
    Sound b n out where
  nodup := hb.owns.out_nodup
  slot a ha := (hb.out_cases ha).imp_right fun hrange => (hb.out_iff a hrange).mp ha
  link := ⟨fl, hb.freeLink, hb.owns.chain.nodup, hb.owns.free_iff⟩
  size := hb.size_eq
  alloc addr hfresh := by
    obtain ⟨b', a, fl', h', hok, -, hnot, hwhich⟩ := hb.alloc hfresh
    exact ⟨b', a, hok, hnot, hwhich⟩
  free a ha := by
    obtain ⟨b', fl', h', hok, -⟩ := hb.free ha
    exact ⟨b', hok⟩
  again hout addrs hlen := by
    subst hout
    have hfull : fl.length = n := by
      have hperm : fl.Perm (List.range n) := by
        refine (List.perm_ext_iff_of_nodup hb.owns.chain.nodup List.nodup_range).mpr fun i => ?_
        rw [hb.owns.free_iff i, List.mem_range]
        simp
      rw [hperm.length_eq, List.length_range]
    obtain ⟨b', as, fl', h', hok, hlens, hb', hnodes⟩ := hb.allocs (hlen.trans hfull.symm).le
    refine ⟨b', as, hok, hlens.trans hlen, ?_, hnodes⟩
    have hnodup := hb'.owns.out_nodup
    rw [List.append_nil] at hnodup
    exact List.nodup_reverse.mp hnodup

/-- **Every run** leaves bytes that show a pool which owns its nodes. -/
lemma Uses.holds {n eltSize : ℕ} {b : BytePool} {out : List ℕ} (hrun : Uses n eltSize b out) :
    ∃ fl h, Holds b n out fl h := by
  induction hrun with
  | @new _ m buf _ hos hstep =>
      obtain ⟨hn, hsize, hlast⟩ := Holds.sizes_of_new hstep
      obtain ⟨b', h, hok, hb⟩ := Holds.ofNew hos m buf hn hsize hlast
      obtain rfl := Except.ok.inj (hok.symm.trans hstep)
      exact ⟨_, h, hb⟩
  | alloc _ hfresh hstep ih =>
      obtain ⟨fl, h, hb⟩ := ih
      obtain ⟨b', a, fl', h', hok, hb', -⟩ := hb.alloc hfresh
      obtain ⟨rfl, rfl⟩ := Prod.mk.inj (Except.ok.inj (hok.symm.trans hstep))
      exact ⟨fl', h', hb'⟩
  | free _ hout hstep ih =>
      obtain ⟨fl, h, hb⟩ := ih
      obtain ⟨b', fl', h', hok, hb'⟩ := hb.free hout
      obtain rfl := Except.ok.inj (hok.symm.trans hstep)
      exact ⟨fl', h', hb'⟩
  | put _ hout hk ih =>
      obtain ⟨fl, h, hb⟩ := ih
      obtain ⟨h', hb'⟩ := hb.put hout hk
      exact ⟨fl, h', hb'⟩

/-- **Every node has one owner and none is lost**, in every run of a pool of `n > 0` nodes whose
storage is below `2^31` bytes.  The constructor returns; so do `alloc`, and `free` of what is out.
-/
theorem hands_out_once {n eltSize : ℕ} (hn : 0 < n) (hsize : n * (max eltSize 5 + 1) < 2 ^ 31) :
    (∀ os : Libc, os.Total → ∀ m buf, ∃ b, BytePool.new os m buf n eltSize = .ok b) ∧
    ∀ b out, Uses n eltSize b out → Sound b n out := by
  constructor
  · intro os hos m buf
    have hlast := Nat.mul_le_mul_right (max eltSize 5 + 1) (Nat.sub_le n 1)
    obtain ⟨b, h, hok, -⟩ := @Holds.ofNew n os hos m buf eltSize hn (by omega) (by omega)
    exact ⟨b, hok⟩
  · intro b out hrun
    obtain ⟨fl, h, hb⟩ := hrun.holds
    exact hb.sound

/-- A pool of three nodes of eight bytes: a node is handed out, and filled by its owner. -/
theorem hands_out_once_three : ∃ b, Uses 3 8 b [100] ∧ Sound b 3 [100] := by
  have h₀ : Uses 3 8 _ [] := .new zeroLibc_total
    (show BytePool.new zeroLibc (fun _ => 0) 100 3 8 = .ok _ from rfl)
  have h₁ : Uses 3 8 _ [100] := .alloc h₀ (show BytePool.Fresh _ 200 by decide)
    (show BytePool.alloc _ _ = .ok (_, 100) from rfl)
  have h₂ : Uses 3 8 (BytePool.put _ 100 0 [1, 2, 3, 4, 5, 6, 7, 8]) [100] :=
    .put h₁ List.mem_cons_self (by decide)
  exact ⟨_, h₂, (hands_out_once (by decide) (by decide)).2 _ _ h₂⟩

end BytePool

end Axon
