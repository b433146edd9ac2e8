import Axon.Core.MemPoolBytes

/-!
# Nodes and fallback blocks

`MemPool::free` is given nodes of the pool and blocks `alloc` took from `malloc` when the pool was
full, and tells them apart by their addresses: it compares them with `buf_` and `buf_end_`.  The
latter is the first address behind the pool, and `pc > buf_end_` counts it to the pool.

* **`BytePool.Grants`** : the blocks `malloc` may return, also the one right behind the pool.
* **`BytePool.Mixes`** : the runs, as `BytePool.Uses` with these blocks.
* **`BytePool.Keeps`** : their invariant.  Without the block at `buf_end_` the pool holds.
* **`BytePool.free_tells_iff`** : `free` treats every pointer as what it is, except a block at
  `buf_end_`.
-/

namespace Axon

open Library

namespace BytePool

variable {b b' : BytePool} {n eltSize a p addr : ℕ} {out fl : List ℕ} {h : Heap ℤ}

/-- A block `malloc` may return: it overlaps neither the pool nor a block in use. -/
def Grants (b : BytePool) (addr : ℕ) : Prop :=
  (addr + b.eltSize ≤ b.buf ∨ b.bufEnd ≤ addr) ∧
    ∀ c ∈ b.blocks, addr + b.eltSize ≤ c ∨ c + b.eltSize ≤ addr

instance (b : BytePool) (addr : ℕ) : Decidable (b.Grants addr) :=
  inferInstanceAs (Decidable (_ ∧ _))

/-- **A run**: calls of `alloc` and `free` and writes of the clients; `out` are the pointers handed
out and not freed, the latest first. -/
inductive Mixes (n eltSize : ℕ) : BytePool → List ℕ → Prop
  | new {os : Libc} {m : ℕ → UInt8} {buf : ℕ} {b : BytePool} (hos : os.Total)
      (hstep : BytePool.new os m buf n eltSize = .ok b) : Mixes n eltSize b []
  | alloc {b b' : BytePool} {out : List ℕ} {addr a : ℕ} (hrun : Mixes n eltSize b out)
      (hgrant : b.Grants addr) (hstep : b.alloc addr = .ok (b', a)) : Mixes n eltSize b' (a :: out)
  | free {b b' : BytePool} {out : List ℕ} {a : ℕ} (hrun : Mixes n eltSize b out) (hout : a ∈ out)
      (hstep : b.free a = .ok b') : Mixes n eltSize b' (out.erase a)
  | put {b : BytePool} {out : List ℕ} {a k : ℕ} {bs : List UInt8} (hrun : Mixes n eltSize b out)
      (hout : a ∈ out) (hk : k + bs.length ≤ b.eltSize) : Mixes n eltSize (b.put a k bs) out

/-- **`free` passes a block on**: `::free` gets it, and the pool stays as it was. -/
structure PassedOn (b b' : BytePool) (p : ℕ) : Prop where
  given : ∀ c, c ∈ b'.blocks ↔ c ∈ b.blocks ∧ c ≠ p
  freeNode : b'.freeNode = b.freeNode
  nalloc : b'.nalloc = b.nalloc
  bytes : ∀ x, b.buf ≤ x → x < b.bufEnd → b'.mem x = b.mem x

/-- **`free` takes a node back**: it is the first of the free link, and the next to be handed out.
-/
structure TakenBack (b b' : BytePool) (n p : ℕ) : Prop where
  link : ∃ i < n, p = b.node i ∧ ∃ fl, FreeLink b b.freeNode fl ∧ FreeLink b' b'.freeNode (i :: fl)
  nalloc : b'.nalloc = b.nalloc - 1
  blocks : b'.blocks = b.blocks
  next : ∀ addr, ∃ b'', b'.alloc addr = .ok (b'', p)

/-! ## The blocks do not matter to the pool -/

/-- The pool with other blocks in use. -/
def withBlocks (b : BytePool) (l : List ℕ) : BytePool := { b with blocks := l }

lemma freeLink_withBlocks (l : List ℕ) {z : ℤ} :
    FreeLink (b.withBlocks l) z fl ↔ FreeLink b z fl := by
  induction fl generalizing z with
  | nil => exact Iff.rfl
  | cons i fl ih => exact and_congr_right fun _ => ih

/-- **What `alloc` can do.** -/
lemma alloc_cases (hok : b.alloc addr = .ok (b', a)) :
    (b.capacity ≤ b.nalloc ∧ b' = b.withBlocks (addr :: b.blocks) ∧ a = addr) ∨
    (¬ b.capacity ≤ b.nalloc ∧ b'.blocks = b.blocks ∧ b'.bufEnd = b.bufEnd ∧
      ∀ l addr', (b.withBlocks l).alloc addr' = .ok (b'.withBlocks l, a)) := by
  by_cases hfull : b.capacity ≤ b.nalloc
  · rw [alloc, if_pos hfull] at hok
    obtain ⟨rfl, rfl⟩ := Prod.mk.inj (Except.ok.inj hok)
    exact .inl ⟨hfull, rfl, rfl⟩
  · rw [alloc, if_neg hfull] at hok
    obtain ⟨_, hnode, hok⟩ := bind_eq_ok hok
    dsimp only at hok
    split_ifs at hok with hin
    obtain ⟨_, hflag, hok⟩ := bind_eq_ok hok
    obtain ⟨rfl, rfl⟩ := Prod.mk.inj (Except.ok.inj hok)
    refine .inr ⟨hfull, rfl, rfl, fun l addr' => ?_⟩
    exact @alloc_of_room (b.withBlocks l) addr' hfull (rtAssert_eq_ok hnode) hin
      (rtAssert_eq_ok hflag)

/-- **What `free` can do.** -/
lemma free_cases (hok : b.free p = .ok b') :
    ((p < b.buf ∨ b.bufEnd < p) ∧ p ∈ b.blocks ∧
      b' = b.withBlocks (b.blocks.filter (· ≠ p))) ∨
    (b.InPool p ∧ b'.blocks = b.blocks ∧ b'.bufEnd = b.bufEnd ∧ b'.nalloc = b.nalloc - 1 ∧
      (∀ i, b'.node i = b.node i) ∧ ∀ l, (b.withBlocks l).free p = .ok (b'.withBlocks l)) := by
  rw [free] at hok
  split_ifs at hok with hrange hblock hin
  · obtain rfl := Except.ok.inj hok
    exact .inl ⟨hrange, hblock, rfl⟩
  · obtain ⟨_, hflag, hok⟩ := bind_eq_ok hok
    obtain rfl := Except.ok.inj hok
    refine .inr ⟨hin, rfl, rfl, rfl, fun _ => rfl, fun l => ?_⟩
    exact @free_of_inPool (b.withBlocks l) p hin (rtAssert_eq_ok hflag)

/-- Only the bytes of the pool count. -/
lemma Holds.congr (hb : Holds b n out fl h) {m : ℕ → UInt8}
    (hmem : ∀ x, b.buf ≤ x → x < b.bufEnd → m x = b.mem x) :
    Holds { b with mem := m } n out fl h := by
  have hoff := hb.offset
  have helt := hb.eltSize
  have hbytes : ∀ i < n, ∀ k ≤ b.eltSize, m (b.node i + k) = b.mem (b.node i + k) := by
    intro i hi k hk
    have hle := hb.node_le hi
    exact hmem _ (by omega) (by omega)
  have hload : ∀ i < n, loadInt m (b.node i) = loadInt b.mem (b.node i) :=
    fun i hi => loadInt_congr fun k hk => hbytes i hi k (by omega)
  refine ⟨?_, ?_, hb.live_iff, hb.out_iff, hb.away, hb.eltSize, hb.offset, hb.small, hb.head, ?_⟩
  · exact hb.owns.reflag fun i hi => congrArg UInt8.toNat (hbytes i hi _ le_rfl)
  · intro i hi
    exact (hb.shows i hi).trans (congrArg some (hload i hi).symm)
  · intro i hi
    exact (hb.links i hi).trans_eq (hload i (hb.owns.fl_lt hi)).symm

/-! ## The invariant -/

/-- The pool without a block right behind it. -/
def trim (b : BytePool) : BytePool := b.withBlocks (b.blocks.filter (· ≠ b.bufEnd))

/-- **The invariant**: a block right behind the pool apart, the bytes hold. -/
structure Keeps (b : BytePool) (n : ℕ) (out : List ℕ) : Prop where
  holds : ∃ fl h, Holds b.trim n (out.filter (· ≠ b.bufEnd)) fl h
  end_iff : b.bufEnd ∈ out ↔ b.bufEnd ∈ b.blocks
  nodup : out.Nodup

lemma mem_trim {c : ℕ} : c ∈ b.trim.blocks ↔ c ∈ b.blocks ∧ c ≠ b.bufEnd := by
  rw [trim, withBlocks, List.mem_filter, decide_eq_true_eq]

/-- `free` of the address behind the pool reads a flag there. -/
lemma free_bufEnd : b.free b.bufEnd = .error .badAccess ∨ b.bufEnd < b.buf := by
  by_cases hlt : b.bufEnd < b.buf
  · exact .inr hlt
  · refine .inl ?_
    rw [free, if_neg (by omega), if_neg fun hin => ?_]
    have hin := hin.2
    omega

namespace Keeps

lemma buf_le (hb : Keeps b n out) : b.buf ≤ b.bufEnd := by
  obtain ⟨fl, h, hholds⟩ := hb.holds
  have heq : b.bufEnd = b.buf + n * b.offset := hholds.bufEnd_eq
  omega

lemma not_freed (hb : Keeps b n out) : b.free b.bufEnd = .error .badAccess := by
  have hle := hb.buf_le
  exact free_bufEnd.resolve_right (by omega)

/-- Other than a block right behind the pool, a pointer is out in the pool without it. -/
lemma mem_out (hp : p ∈ out) (hne : p ≠ b.bufEnd) : p ∈ out.filter (· ≠ b.bufEnd) :=
  List.mem_filter.mpr ⟨hp, decide_eq_true hne⟩

/-- A pointer is a block in use exactly if its address is outside the pool or right behind it. -/
lemma block_iff (hb : Keeps b n out) (hp : p ∈ out) (hne : p ≠ b.bufEnd) :
    p ∈ b.blocks ↔ p < b.buf ∨ b.bufEnd < p := by
  obtain ⟨fl, h, hholds⟩ := hb.holds
  constructor
  · intro hblock
    have hmem : p ∈ b.trim.blocks := mem_trim.mpr ⟨hblock, hne⟩
    have helt : 5 ≤ b.eltSize := hholds.eltSize
    have haway : p + b.eltSize ≤ b.buf ∨ b.bufEnd < p := hholds.away p hmem
    exact haway.imp_left fun hle => by omega
  · intro hrange
    exact (mem_trim.mp ((hholds.out_iff p hrange).mp (mem_out hp hne))).1

lemma ofNew {os : Libc} {m : ℕ → UInt8} {buf : ℕ} (hos : os.Total)
    (hok : BytePool.new os m buf n eltSize = .ok b) : Keeps b n [] := by
  obtain ⟨hn, hsize, hlast⟩ := Holds.sizes_of_new hok
  obtain ⟨b', h, hok', hb⟩ := Holds.ofNew hos m buf hn hsize hlast
  obtain rfl := Except.ok.inj (hok.symm.trans hok')
  have hblocks : b.blocks = [] := by
    obtain ⟨-, -, hok⟩ := bind_eq_ok hok
    split_ifs at hok <;> exact congrArg BytePool.blocks (Except.ok.inj hok).symm
  have htrim : b.trim = b := by
    rw [trim, withBlocks, hblocks, List.filter_nil, ← hblocks]
  exact ⟨⟨_, h, by rw [htrim]; exact hb⟩, by rw [hblocks], List.nodup_nil⟩

/-- **`alloc` keeps the invariant**, wherever `malloc` puts its block. -/
lemma alloc (hb : Keeps b n out) (hgrant : b.Grants addr) (hok : b.alloc addr = .ok (b', a)) :
    Keeps b' n (a :: out) := by
  obtain ⟨fl, h, hholds⟩ := hb.holds
  have helt : 5 ≤ b.eltSize := hholds.eltSize
  rcases alloc_cases hok with ⟨hfull, rfl, rfl⟩ | ⟨hroom, hblocks, hend, hsame⟩
  · have hnot : a ∉ b.blocks := by
      intro hmem
      have hapart := hgrant.2 a hmem
      omega
    rcases eq_or_ne a b.bufEnd with rfl | hne
    · refine ⟨⟨fl, h, ?_⟩, ?_,
        List.nodup_cons.mpr ⟨fun hmem => hnot (hb.end_iff.mp hmem), hb.nodup⟩⟩
      · simp only [trim, withBlocks, List.filter_cons, ne_eq, not_true_eq_false, decide_false,
          Bool.false_eq_true, if_false]
        exact hholds
      · simp [withBlocks]
    · have hfresh : b.trim.Fresh a := by
        refine ⟨fun hmem => hnot (mem_trim.mp hmem).1, hgrant.1.imp_right fun hle => ?_⟩
        show b.bufEnd < a
        omega
      obtain ⟨hnew, hholds'⟩ := hholds.alloc_block hfull hfresh
      refine ⟨⟨fl, h.put a 0, ?_⟩, ?_,
        List.nodup_cons.mpr ⟨fun hmem => hnew (mem_out hmem hne), hb.nodup⟩⟩
      · simp only [trim, withBlocks, List.filter_cons, ne_eq, hne, not_false_eq_true, decide_true,
          if_true]
        exact hholds'
      · simp only [withBlocks, List.mem_cons, hb.end_iff]
  · cases fl with
    | nil => exact absurd hholds.full hroom
    | cons i fl =>
        have hi : i < n := hholds.owns.fl_lt List.mem_cons_self
        obtain ⟨b₁, hok₁, -, -, hholds₁⟩ := hholds.alloc_node addr
        obtain ⟨rfl, rfl⟩ := Prod.mk.inj (Except.ok.inj (hok₁.symm.trans (hsame _ _)))
        have hne : b.trim.node i ≠ b.bufEnd := by
          have hle : _ ∧ b.trim.node i + b.offset ≤ b.bufEnd := hholds.node_le hi
          have hoff : b.offset = b.eltSize + 1 := hholds.offset
          omega
        have hnew := (List.nodup_cons.mp hholds₁.owns.out_nodup).1
        refine ⟨⟨fl, h, ?_⟩, ?_,
          List.nodup_cons.mpr ⟨fun hmem => hnew (mem_out hmem hne), hb.nodup⟩⟩
        · rw [trim, hblocks, hend, List.filter_cons, if_pos (decide_eq_true hne)]
          exact hholds₁
        · rw [hend, hblocks, List.mem_cons, hb.end_iff]
          exact or_iff_right hne.symm

/-- `free` does the same without a block right behind the pool. -/
lemma free_trim (hok : b.free p = .ok b') : b.trim.free p = .ok b'.trim ∨ p = b.bufEnd := by
  rcases eq_or_ne p b.bufEnd with heq | hne
  · exact .inr heq
  · refine .inl ?_
    rcases free_cases hok with ⟨hrange, hblock, rfl⟩ | ⟨-, hblocks, hend, -, -, hsame⟩
    · have hmem : p ∈ b.trim.blocks := mem_trim.mpr ⟨hblock, hne⟩
      have hcomm : b.trim.blocks.filter (· ≠ p) =
          (b.blocks.filter (· ≠ p)).filter (· ≠ b.bufEnd) := List.filter_comm ..
      rw [BytePool.free, if_pos (show p < b.trim.buf ∨ b.trim.bufEnd < p from hrange), if_pos hmem,
        hcomm]
      rfl
    · rw [trim, hsame, trim, hblocks, hend]

/-- **`free` keeps the invariant**, where it returns. -/
lemma free (hb : Keeps b n out) (hout : a ∈ out) (hok : b.free a = .ok b') :
    Keeps b' n (out.erase a) := by
  have hne : a ≠ b.bufEnd := by
    rintro rfl
    exact absurd (hb.not_freed.symm.trans hok) (by simp)
  obtain ⟨fl, h, hholds⟩ := hb.holds
  obtain ⟨b₁, fl', h', hok', hholds'⟩ := hholds.free (mem_out hout hne)
  obtain rfl := Except.ok.inj (hok'.symm.trans ((free_trim hok).resolve_right hne))
  have hend : b'.bufEnd = b.bufEnd ∧ (b.bufEnd ∈ b'.blocks ↔ b.bufEnd ∈ b.blocks) := by
    rcases free_cases hok with ⟨-, -, rfl⟩ | ⟨-, hblocks, hend, -⟩
    · exact ⟨rfl, by simp [withBlocks, hne.symm]⟩
    · exact ⟨hend, by rw [hblocks]⟩
  refine ⟨⟨fl', h', ?_⟩, ?_, hb.nodup.erase a⟩
  · rw [hend.1, hb.nodup.erase_eq_filter, List.filter_comm]
    rw [(hb.nodup.filter _).erase_eq_filter] at hholds'
    exact hholds'
  · rw [hend.1, hend.2, hb.nodup.mem_erase_iff, hb.end_iff]
    exact and_iff_right hne.symm

/-- **A client writes** what it likes into the bytes it holds, also right behind the pool. -/
lemma put (hb : Keeps b n out) {k : ℕ} {bs : List UInt8} (hout : a ∈ out)
    (hk : k + bs.length ≤ b.eltSize) : Keeps (b.put a k bs) n out := by
  obtain ⟨fl, h, hholds⟩ := hb.holds
  rcases eq_or_ne a b.bufEnd with rfl | hne
  · exact ⟨⟨fl, h, hholds.congr fun x _ hx => blit_of_outside _ (.inl (Nat.lt_add_right k hx))⟩,
      hb.end_iff, hb.nodup⟩
  · obtain ⟨h', hholds'⟩ := hholds.put (mem_out hout hne) hk
    exact ⟨⟨fl, h', hholds'⟩, hb.end_iff, hb.nodup⟩

end Keeps

/-- **Every run** keeps the invariant. -/
lemma Mixes.keeps (hrun : Mixes n eltSize b out) : Keeps b n out := by
  induction hrun with
  | new hos hstep => exact .ofNew hos hstep
  | alloc _ hgrant hstep ih => exact ih.alloc hgrant hstep
  | free _ hout hstep ih => exact ih.free hout hstep
  | put _ hout hk ih => exact ih.put hout hk

/-! ## What `free` does -/

namespace Keeps

/-- A block that is not right behind the pool. -/
lemma free_block (hb : Keeps b n out) (hp : p ∈ out) (hblock : p ∈ b.blocks) (hne : p ≠ b.bufEnd) :
    ∃ b', b.free p = .ok b' ∧ PassedOn b b' p := by
  refine ⟨b.withBlocks (b.blocks.filter (· ≠ p)), ?_, ?_, rfl, rfl, fun _ _ _ => rfl⟩
  · rw [BytePool.free, if_pos ((hb.block_iff hp hne).mp hblock), if_pos hblock]
    rfl
  · intro c
    rw [withBlocks, List.mem_filter, decide_eq_true_eq]

/-- A node. -/
lemma free_node (hb : Keeps b n out) (hp : p ∈ out) (hblock : p ∉ b.blocks) :
    ∃ b', b.free p = .ok b' ∧ TakenBack b b' n p := by
  have hne : p ≠ b.bufEnd := by
    rintro rfl
    exact hblock (hb.end_iff.mp hp)
  obtain ⟨fl, h, hholds⟩ := hb.holds
  obtain ⟨i, hi, rfl⟩ : ∃ i < n, p = b.node i :=
    (hholds.out_cases (mem_out hp hne)).resolve_right fun hrange =>
      hblock ((hb.block_iff hp hne).mpr hrange)
  obtain ⟨b₁, h₁, hok, hholds₁⟩ := hholds.free_node hi (mem_out hp hne)
  rcases free_cases hok with ⟨hrange, -⟩ | ⟨-, -, -, hnalloc, hnode, hsame⟩
  · exact absurd hrange (hholds.node_not_outside hi)
  · refine ⟨b₁.withBlocks b.blocks, hsame b.blocks, ⟨i, hi, rfl, fl, ?_, ?_⟩, hnalloc, rfl, ?_⟩
    · exact (freeLink_withBlocks _).mp hholds.freeLink
    · exact (freeLink_withBlocks _).mpr hholds₁.freeLink
    · intro addr
      obtain ⟨b₂, hok₂, -⟩ := hholds₁.alloc_node addr
      rcases alloc_cases hok₂ with ⟨hfull, -⟩ | ⟨-, -, -, hany⟩
      · exact absurd hfull hholds₁.room
      · refine ⟨b₂.withBlocks b.blocks, (hany b.blocks addr).trans ?_⟩
        rw [hnode i]
        rfl

end Keeps

/-- **`free` tells blocks from nodes**, in every run: a block from `malloc` is passed on to `::free`
exactly if it does not begin at `buf_end_`, and a node always goes back to the pool. -/
theorem free_tells_iff (hrun : Mixes n eltSize b out) (hp : p ∈ out) :
    (p ∈ b.blocks → ((∃ b', b.free p = .ok b' ∧ PassedOn b b' p) ↔ p ≠ b.bufEnd)) ∧
      (p ∉ b.blocks → ∃ b', b.free p = .ok b' ∧ TakenBack b b' n p) := by
  have hb := hrun.keeps
  refine ⟨fun hblock => ⟨?_, hb.free_block hp hblock⟩, hb.free_node hp⟩
  rintro ⟨b', hok, -⟩ rfl
  exact absurd (hb.not_freed.symm.trans hok) (by simp)

/-- A pool of one node of five bytes, which is out, and a block in front of the pool. -/
theorem free_tells_before : ∃ b, Mixes 1 5 b [95, 100] ∧
    (∃ b', b.free 95 = .ok b' ∧ PassedOn b b' 95) ∧
    ∃ b', b.free 100 = .ok b' ∧ TakenBack b b' 1 100 := by
  have h₀ : Mixes 1 5 _ [] := .new zeroLibc_total
    (show BytePool.new zeroLibc (fun _ => 0) 100 1 5 = .ok _ from rfl)
  have h₁ : Mixes 1 5 _ [100] := .alloc h₀ (show BytePool.Grants _ 200 by decide)
    (show BytePool.alloc _ _ = .ok (_, 100) from rfl)
  have h₂ : Mixes 1 5 _ [95, 100] := .alloc h₁ (show BytePool.Grants _ 95 by decide)
    (show BytePool.alloc _ _ = .ok (_, 95) from rfl)
  exact ⟨_, h₂, ((free_tells_iff h₂ (by decide)).1 (by decide)).mpr (by decide),
    (free_tells_iff h₂ (by decide)).2 (by decide)⟩

/-- **A block right behind the pool** is taken for a node: `free` reads the flag of a node there,
which is behind the block. -/
theorem free_behind : ∃ b, Mixes 1 5 b [106, 100] ∧ 106 ∈ b.blocks ∧
    b.free 106 = .error .badAccess ∧ ¬ ∃ b', b.free 106 = .ok b' ∧ PassedOn b b' 106 := by
  have h₀ : Mixes 1 5 _ [] := .new zeroLibc_total
    (show BytePool.new zeroLibc (fun _ => 0) 100 1 5 = .ok _ from rfl)
  have h₁ : Mixes 1 5 _ [100] := .alloc h₀ (show BytePool.Grants _ 200 by decide)
    (show BytePool.alloc _ _ = .ok (_, 100) from rfl)
  have h₂ : Mixes 1 5 _ [106, 100] := .alloc h₁ (show BytePool.Grants _ 106 by decide)
    (show BytePool.alloc _ _ = .ok (_, 106) from rfl)
  refine ⟨_, h₂, by decide, rfl, ?_⟩
  rintro ⟨b', hok, -⟩
  cases hok

end BytePool

end Axon
