import Axon.Core.QueueSteps

/-!
# Where the messages of a `queue_t` lie

`push` writes a header and the payload, and advances by at least `sizeof(var_msg_t)`; `pop` reads
the header, and advances by the header and the payload.  Both go through the first chunk of the
queue.

* **`Pushed`** : a message that has been pushed: its length, where its header is, and how far `push`
  advanced.
* **`Placed`**, **`Headers`** : the headers of the messages not popped yet, from `pos_begin_` to
  `pos_end_`.
* **`same_stride_iff`** : `pop` advances as far as `push` did exactly over messages of four bytes or
  more.
* **`Region`**, **`Kept`** : runs in which no message is written over another, with all that `push`
  has written.
* **`accesses_inside`** : in these runs all accesses are inside the chunk, and a header that is read
  has been written.
-/

namespace Axon

open Library

namespace QueueT

variable {q q' : QueueT} {junk : ℕ → UInt8} {n len : ℕ} {type : Int32}
  {vdata : Option (List UInt8)} {m m' : ℕ → UInt8} {cap off e : ℕ}

/-- A message that has been pushed. -/
structure Pushed where
  len : ℕ
  /-- The offset of its header. -/
  off : ℕ
  /-- How far `push` advanced `pos_end_`. -/
  stride : ℕ
deriving DecidableEq, Repr

variable {x : Pushed} {l xs : List Pushed}

/-- `memcpy(pheader->data, vdata, n)` reads `n` bytes. -/
def PayloadOf (vdata : Option (List UInt8)) (len : ℕ) : Prop := ∀ d, vdata = some d → d.length = len

lemma length_msgBytes_le (type : Int32) (hv : PayloadOf vdata len) :
    varMsgHlen ≤ (msgBytes len type vdata).length ∧
      (msgBytes len type vdata).length ≤ varMsgHlen + len := by
  cases vdata with
  | none => simp [msgBytes, varMsgHlen]
  | some d =>
      simp only [msgBytes, List.length_append, length_le32, Option.getD_some, varMsgHlen, hv d rfl]
      omega

/-! ## Headers -/

/-- The header of a message is in memory at its place. -/
structure HeaderAt (m : ℕ → UInt8) (cap : ℕ) (x : Pushed) : Prop where
  stride : x.stride = totalLen x.len
  len_lt : x.len < 2 ^ 31
  inside : x.off + varMsgHlen ≤ cap
  word : word32 m x.off = x.len

/-- The headers of the messages are in memory, each message behind the one before, from offset `off`
to offset `e`. -/
def Placed (m : ℕ → UInt8) (cap : ℕ) : ℕ → List Pushed → ℕ → Prop
  | off, [], e => off = e
  | off, x :: xs, e => x.off = off ∧ HeaderAt m cap x ∧ Placed m cap (off + x.stride) xs e

lemma HeaderAt.stride_ge (h : HeaderAt m cap x) : sizeofVarMsg ≤ x.stride := by
  rw [h.stride, totalLen_eq_max h.len_lt]
  exact le_max_left ..

lemma Placed.le (h : Placed m cap off l e) : off ≤ e := by
  induction l generalizing off with
  | nil => exact le_of_eq h
  | cons x xs ih =>
      obtain ⟨-, -, h⟩ := h
      have := ih h
      omega

/-- Headers only depend on the memory before the end. -/
lemma Placed.congr (h : Placed m cap off l e) (heq : ∀ i < e, m' i = m i) :
    Placed m' cap off l e := by
  induction l generalizing off with
  | nil => exact h
  | cons x xs ih =>
      obtain ⟨hoff, hx, h⟩ := h
      have hle := h.le
      have hstride := hx.stride_ge
      simp only [sizeofVarMsg] at hstride
      refine ⟨hoff, ⟨hx.stride, hx.len_lt, hx.inside, ?_⟩, ih h⟩
      rw [← hx.word]
      exact word32_congr fun k hk => heq _ (by omega)

/-- A message behind the others. -/
lemma Placed.append (h : Placed m cap off l e) (hoff : x.off = e) (hx : HeaderAt m cap x) :
    Placed m cap off (l ++ [x]) (e + x.stride) := by
  induction l generalizing off with
  | nil =>
      obtain rfl : off = e := h
      exact ⟨hoff, hx, rfl⟩
  | cons y ys ih => exact ⟨h.1, h.2.1, ih h.2.2⟩

/-- A header stored in memory. -/
lemma word32_msgBytes (hlen : len < 2 ^ 31) :
    word32 (blit m off (msgBytes len type vdata)) off = len := by
  have hbits : intBits len = len := by
    rw [intBits]
    omega
  have hblit : blit m off (msgBytes len type vdata) =
      blit (blit m off (le32 len)) (off + 4) (le32 type.toUInt32.toNat ++ vdata.getD []) := by
    rw [show off + 4 = off + (le32 len).length from rfl, blit_blit_append, msgBytes, hbits,
      List.append_assoc]
  rw [hblit, word32_blit_of_outside _ (.inl le_rfl), word32_blit_self _ _ (by omega)]

/-- The queue is in its first chunk, where the headers of the messages `l` are. -/
structure Headers (q : QueueT) (l : List Pushed) : Prop where
  single : Single q
  placed : ∃ off : ℕ, q.posBegin = off ∧
    Placed (q.chunks q.chunkBegin).data (q.chunks q.chunkBegin).capacity off l q.posEnd
  end_le : q.posEnd ≤ capacityLimit
  cap_lt : (q.chunks q.chunkBegin).capacity < capacityLimit
  chunk_nelems : (q.chunks q.chunkBegin).nelems = l.length
  nelems : q.nelems = l.length
  empty : l = [] → q.posBegin = 0 ∧ q.posEnd = 0

namespace Headers

lemma new (h : QueueT.new junk n = .ok q) : Headers q [] := by
  have hs := Single.new h
  obtain ⟨_, hlt, h⟩ := bind_eq_ok h
  obtain rfl := Except.ok.inj h
  exact ⟨hs, ⟨0, rfl, rfl⟩, Nat.zero_le _, rtAssert_eq_ok hlt, rfl, rfl, fun _ => ⟨rfl, rfl⟩⟩

/-- The oldest message is at the front. -/
lemma front (h : Headers q (x :: xs)) :
    q.posBegin = x.off ∧ q.HeaderInside ∧ q.front.length = x.len := by
  obtain ⟨off, hoff, rfl, hx, -⟩ := h.placed
  refine ⟨hoff, ⟨?_, ?_⟩, ?_⟩
  · rw [hoff]
    exact Int.natCast_nonneg _
  · rw [hoff]
    exact_mod_cast hx.inside
  · have hlen : x.len < 2 ^ 31 := hx.len_lt
    show bitsInt (word32 _ q.posBegin.toNat) = _
    rw [hoff, Int.toNat_natCast, hx.word, bitsInt, if_pos hlen]

/-- There is room behind the last message. -/
lemma hasRoom_iff (h : Headers q l) (ht : totalLen len ≤ capacityLimit) :
    q.HasRoom len ↔ q.posEnd + totalLen len < (q.chunks q.chunkEnd).capacity := by
  have hend := h.end_le
  simp only [capacityLimit] at hend ht
  rw [HasRoom, u32_of_lt (by omega)]

/-- The message goes behind the last one, or into the empty queue. -/
lemma stored {total : ℕ} (h : Headers q l) (hlen : len < 2 ^ 31) (htotal : total = totalLen len)
    (hend : q.posEnd + total ≤ capacityLimit)
    (hin : q.posEnd + varMsgHlen ≤ (q.chunks q.chunkEnd).capacity) :
    Headers (q.stored (msgBytes len type vdata) total) (l ++ [⟨len, q.posEnd, total⟩]) := by
  obtain ⟨off, hoff, hplaced⟩ := h.placed
  have hone := h.single.one_chunk
  have hself : (q.stored (msgBytes len type vdata) total).chunks q.chunkBegin =
      { q.chunks q.chunkBegin with
        data := blit (q.chunks q.chunkBegin).data q.posEnd (msgBytes len type vdata)
        nelems := (q.chunks q.chunkBegin).nelems + 1 } := by
    rw [← hone]
    exact stored_chunk_self _
  rw [hone] at hin
  refine ⟨h.single.stored _, ⟨off, hoff, ?_⟩, hend, ?_, ?_, ?_, fun hnil => absurd hnil (by simp)⟩
  · show Placed ((q.stored _ total).chunks q.chunkBegin).data
      ((q.stored _ total).chunks q.chunkBegin).capacity off _ (q.posEnd + total)
    rw [hself]
    refine Placed.append (hplaced.congr fun i hi => ?_) rfl
      ⟨htotal, hlen, hin, word32_msgBytes hlen⟩
    exact blit_of_outside _ (.inl hi)
  · show ((q.stored _ total).chunks q.chunkBegin).capacity < _
    rw [hself]
    exact h.cap_lt
  · show ((q.stored _ total).chunks q.chunkBegin).nelems = _
    rw [hself, List.length_append, List.length_singleton]
    exact congrArg (· + 1) h.chunk_nelems
  · show q.nelems + 1 = _
    rw [h.nelems, List.length_append, List.length_singleton]

/-- An empty queue that got a new chunk is still an empty queue. -/
lemma chained (h : Headers q []) (hc : Chained q q') (hs : Single q') : Headers q' [] := by
  obtain ⟨hdata, hcap, hnelems⟩ := hc.older q.chunkBegin h.single.begin_lt
  obtain ⟨hbegin, -⟩ := h.empty rfl
  refine ⟨hs, ⟨0, ?_, hc.posEnd.symm⟩, ?_, ?_, ?_, ?_, fun _ => ⟨?_, hc.posEnd⟩⟩
  · rw [hc.posBegin, hbegin]
    rfl
  · rw [hc.posEnd]
    exact Nat.zero_le _
  · rw [hc.chunkBegin, hcap]
    exact h.cap_lt
  · rw [hc.chunkBegin, hnelems]
    exact h.chunk_nelems
  · rw [hc.nelems]
    exact h.nelems
  · rw [hc.posBegin, hbegin]

/-- **A pop** over a message of four bytes or more, or over the last one. -/
lemma pop (h : Headers q (x :: xs)) (hlong : 4 ≤ x.len ∨ xs = []) :
    ∃ q', q.pop = .ok q' ∧ Headers q' xs ∧
      (q'.chunks q'.chunkBegin).capacity = (q.chunks q.chunkBegin).capacity ∧
      q'.chunkBegin = q.chunkBegin := by
  obtain ⟨hbegin, hhead, hfront⟩ := h.front
  obtain ⟨off, hoff, rfl, hx, hplaced⟩ := h.placed
  have hnel := h.chunk_nelems
  rw [List.length_cons] at hnel
  have hself := advanced_chunk_self (q := q)
  cases xs with
  | nil =>
      have hok := h.single.pop_last hhead (by rw [hnel]; rfl)
      refine ⟨q.emptied, hok, ⟨h.single.pop hok, ⟨0, rfl, rfl⟩, Nat.zero_le _, ?_, ?_, ?_,
        fun _ => ⟨rfl, rfl⟩⟩, ?_, rfl⟩
      · show (q.advanced.chunks q.chunkBegin).capacity < _
        rw [hself]
        exact h.cap_lt
      · show (q.advanced.chunks q.chunkBegin).nelems = 0
        rw [hself]
        exact Nat.sub_eq_zero_of_le (Nat.le_of_eq hnel)
      · show q.nelems - 1 = 0
        rw [h.nelems]
        rfl
      · show (q.advanced.chunks q.chunkBegin).capacity = _
        rw [hself]
  | cons y ys =>
      have hfour := hlong.resolve_right (by simp)
      have hok := Single.pop_more hhead (by rw [hnel, List.length_cons]; omega)
      have hle := hplaced.le
      have hend := h.end_le
      have hstride : x.stride = varMsgHlen + x.len := by
        rw [hx.stride, totalLen_eq_max hx.len_lt]
        simp only [varMsgHlen, sizeofVarMsg]
        omega
      have hpos : q.advanced.posBegin = ((x.off + x.stride : ℕ) : ℤ) := by
        simp only [capacityLimit] at hend
        rw [advanced_posBegin hoff hfront (by omega), hstride, Nat.add_assoc]
      refine ⟨q.advanced, hok, ⟨h.single.pop hok, ⟨_, hpos, ?_⟩, hend, ?_, ?_, ?_,
        fun hnil => absurd hnil (by simp)⟩, ?_, rfl⟩
      · show Placed (q.advanced.chunks q.chunkBegin).data
          (q.advanced.chunks q.chunkBegin).capacity _ _ q.posEnd
        rw [hself]
        exact hplaced
      · show (q.advanced.chunks q.chunkBegin).capacity < _
        rw [hself]
        exact h.cap_lt
      · show (q.advanced.chunks q.chunkBegin).nelems = _
        rw [hself]
        exact Nat.sub_eq_of_eq_add hnel
      · show q.nelems - 1 = _
        rw [h.nelems]
        rfl
      · show (q.advanced.chunks q.chunkBegin).capacity = _
        rw [hself]

end Headers

/-! ## The same stride -/

/-- The states of a queue of initial chunk size `n` that has only been pushed to, all messages into
its first chunk. -/
inductive Filled (n : ℕ) : QueueT → List Pushed → Prop where
  | new {junk : ℕ → UInt8} {q : QueueT} (h : QueueT.new junk n = .ok q) : Filled n q []
  | push {junk : ℕ → UInt8} {q q' : QueueT} {l : List Pushed} {len : ℕ} {type : Int32}
      {vdata : Option (List UInt8)} (hr : Filled n q l) (hpos : 0 < len) (hlen : len < 2 ^ 31)
      (hv : PayloadOf vdata len) (hroom : q.HasRoom len)
      (h : q.push junk len type vdata = .ok (q', axRetOk)) :
      Filled n q' (l ++ [⟨len, q.posEnd, q'.posEnd - q.posEnd⟩])

/-- A number of pops. -/
def pops : ℕ → QueueT → Except Fault QueueT
  | 0, q => .ok q
  | k + 1, q => do
      let q ← q.pop
      pops k q

/-- What `pop` adds to `pos_begin_`. -/
def popStride (q : QueueT) : ℤ := varMsgHlen + q.front.length

lemma Filled.headers (h : Filled n q l) : Headers q l := by
  induction h with
  | new h => exact .new h
  | @push junk q q' l len type vdata _ hpos hlen hv hroom h ih =>
      obtain ⟨hr, -⟩ | ⟨-, ht, hbound, rfl⟩ := push_cases hpos h
      · exact absurd hr (by decide)
      · have hchosen : q.chosen junk len = q := if_pos hroom
        rw [hchosen] at hbound ⊢
        have hfit := (ih.hasRoom_iff ht).mp hroom
        have hcap := ih.cap_lt
        rw [← ih.single.one_chunk] at hcap
        have hstride : (q.stored (msgBytes len type vdata) (totalLen len)).posEnd - q.posEnd =
            totalLen len := Nat.add_sub_cancel_left ..
        rw [hstride]
        have hge := (length_msgBytes_le type hv).1
        exact ih.stored hlen rfl (by omega) (by omega)

/-- Pops over messages of four bytes or more. -/
lemma Headers.pops {k : ℕ} (h : Headers q l)
    (hlong : ∀ (i : ℕ) (x : Pushed), i < k → l[i]? = some x → 4 ≤ x.len) (hk : k < l.length) :
    ∃ q', q.pops k = .ok q' ∧ Headers q' (l.drop k) := by
  induction k generalizing q l with
  | zero => exact ⟨q, rfl, h⟩
  | succ k ih =>
      cases l with
      | nil => exact absurd hk (Nat.not_lt_zero _)
      | cons x xs =>
          obtain ⟨q₁, hpop, h₁, -⟩ := h.pop (.inl (hlong 0 x (Nat.succ_pos k) rfl))
          obtain ⟨q', hpops, h'⟩ := ih h₁
            (fun i y hi hy => hlong (i + 1) y (Nat.succ_lt_succ hi) hy)
            (Nat.lt_of_succ_lt_succ hk)
          refine ⟨q', ?_, h'⟩
          rw [QueueT.pops, hpop, ok_bind, hpops]

/-- The message at the front after these pops. -/
lemma Headers.pops_front {i : ℕ} (h : Headers q l)
    (hlong : ∀ (j : ℕ) (y : Pushed), j < i → l[j]? = some y → 4 ≤ y.len) (hx : l[i]? = some x) :
    ∃ q', q.pops i = .ok q' ∧ q'.posBegin = x.off ∧ q'.popStride = ((varMsgHlen + x.len : ℕ) : ℤ) ∧
      x.stride = max sizeofVarMsg (varMsgHlen + x.len) := by
  obtain ⟨hi, hget⟩ := List.getElem?_eq_some_iff.mp hx
  obtain ⟨q', hpops, h'⟩ := h.pops hlong hi
  rw [List.drop_eq_getElem_cons hi, hget] at h'
  obtain ⟨hbegin, -, hlen⟩ := h'.front
  obtain ⟨-, -, -, hhead, -⟩ := h'.placed
  refine ⟨q', hpops, hbegin, ?_, ?_⟩
  · rw [popStride, hlen]
    push_cast
    rfl
  · rw [hhead.stride, totalLen_eq_max hhead.len_lt]

/-- **When `push` and `pop` use the same stride**: after any pushes that all fit into the first
chunk, and for any number `k` of pops, the pops advance as far as the pushes did, and `pos_begin_`
is where the header of the oldest message was written at every moment with messages left, if and
only if the messages popped have four bytes or more. -/
theorem same_stride_iff (h : Filled n q l) (k : ℕ) :
    (∀ (i : ℕ) (x : Pushed), i ≤ k → l[i]? = some x → ∃ q', q.pops i = .ok q' ∧
        q'.posBegin = x.off ∧ (i < k → q'.popStride = x.stride)) ↔
      ∀ (i : ℕ) (x : Pushed), i < k → l[i]? = some x → 4 ≤ x.len := by
  have hq := h.headers
  constructor
  · intro hall i
    induction i using Nat.strong_induction_on with
    | _ i ih =>
        intro x hi hx
        obtain ⟨q', hpops, -, hstride⟩ := hall i x hi.le hx
        obtain ⟨q'', hpops', -, hpop, hpush⟩ :=
          hq.pops_front (fun j y hj hy => ih j hj y (hj.trans hi) hy) hx
        obtain rfl := Except.ok.inj (hpops.symm.trans hpops')
        have hsame := hstride hi
        rw [hpop, hpush] at hsame
        simp only [varMsgHlen, sizeofVarMsg] at hsame
        omega
  · intro hlong i x hi hx
    obtain ⟨q', hpops, hbegin, hpop, hpush⟩ :=
      hq.pops_front (fun j y hj hy => hlong j y (Nat.lt_of_lt_of_le hj hi) hy) hx
    refine ⟨q', hpops, hbegin, fun hlt => ?_⟩
    have hfour := hlong i x hlt hx
    rw [hpop, hpush]
    simp only [varMsgHlen, sizeofVarMsg]
    omega

/-- Two messages of four bytes, of which one is popped. -/
theorem same_stride_two : ∃ q l, Filled 100 q l ∧ l = [⟨4, 0, 12⟩, ⟨4, 12, 12⟩] ∧
    ∃ q', q.pops 1 = .ok q' ∧ q'.posBegin = 12 := by
  have h₀ : Filled 100 _ [] := .new (show QueueT.new (fun _ => 0) 100 = .ok _ from rfl)
  have h₁ : Filled 100 _ _ := .push h₀ (Nat.succ_pos 3) (by decide) (fun d hd => by
      obtain rfl := Option.some.inj hd; rfl) (by decide)
    (show QueueT.push _ (fun _ => 0) (4 : ℕ) 5 (some [1, 2, 3, 4]) = .ok (_, _) from rfl)
  have h₂ : Filled 100 _ _ := .push h₁ (Nat.succ_pos 3) (by decide) (fun d hd => by
      obtain rfl := Option.some.inj hd; rfl) (by decide)
    (show QueueT.push _ (fun _ => 0) (4 : ℕ) 6 (some [5, 6, 7, 8]) = .ok (_, _) from rfl)
  obtain ⟨q', hpops, hbegin, -⟩ := (same_stride_iff h₂ 1).mpr (by
    rintro (_ | i) x hi hx
    · obtain rfl := Option.some.inj hx
      decide
    · exact absurd hi (by omega)) 1 ⟨4, 12, 12⟩ le_rfl rfl
  exact ⟨_, _, h₂, rfl, q', hpops, hbegin⟩

/-- **A message of one byte**: `push` advances by 12 and `pop` by 9, and the header of the message
behind it is not where `pop` looks for it. -/
theorem same_stride_fails : ∃ q q', Filled 100 q [⟨1, 0, 12⟩, ⟨4, 12, 12⟩] ∧
    q.popStride = 9 ∧ q.pops 1 = .ok q' ∧ q'.posBegin = 9 := by
  have h₀ : Filled 100 _ [] := .new (show QueueT.new (fun _ => 0) 100 = .ok _ from rfl)
  have h₁ : Filled 100 _ [⟨1, 0, 12⟩] := .push h₀ (Nat.succ_pos 0) (by decide) (fun d hd => by
      obtain rfl := Option.some.inj hd; rfl) (by decide)
    (show QueueT.push _ (fun _ => 0) (1 : ℕ) 5 (some [1]) = .ok (_, _) from rfl)
  have h₂ : Filled 100 _ [⟨1, 0, 12⟩, ⟨4, 12, 12⟩] := .push h₁ (Nat.succ_pos 3) (by decide)
    (fun d hd => by obtain rfl := Option.some.inj hd; rfl) (by decide)
    (show QueueT.push _ (fun _ => 0) (4 : ℕ) 6 (some [5, 6, 7, 8]) = .ok (_, _) from rfl)
  exact ⟨_, _, h₂, rfl, rfl, rfl⟩

/-! ## Accesses -/

/-- The bytes a push wrote: `size` bytes from `off` on in a chunk. -/
structure Region where
  chunk : ℕ
  off : ℕ
  size : ℕ
deriving DecidableEq, Repr

/-- The offset in `chunk_end_->data` that `pheader` is set to. -/
def headerOffset (q : QueueT) (len : ℕ) : ℕ := if q.HasRoom len then q.posEnd else 0

/-- The bytes `push` writes. -/
def writes (q : QueueT) (len : ℕ) (type : Int32) (vdata : Option (List UInt8)) : Region :=
  ⟨q.chunkEnd, q.headerOffset len, (msgBytes len type vdata).length⟩

/-- The message goes behind the last one, or into an empty queue that it fits into. -/
def Goes (q : QueueT) (len : ℕ) (type : Int32) (vdata : Option (List UInt8)) : Prop :=
  q.HasRoom len ∨
    (q.nelems = 0 ∧ (msgBytes len type vdata).length ≤ (q.chunks q.chunkEnd).capacity)

/-- The states a queue of initial chunk size `n` reaches by calls that write no message over another
and pop messages of four bytes or more, or the last one; with the messages not popped yet, and all
that has been written. -/
inductive Kept (n : ℕ) : QueueT → List Pushed → List Region → Prop where
  | new {junk : ℕ → UInt8} {q : QueueT} (h : QueueT.new junk n = .ok q) : Kept n q [] []
  | push {junk : ℕ → UInt8} {q q' : QueueT} {l : List Pushed} {W : List Region} {len : ℕ}
      {type : Int32} {vdata : Option (List UInt8)} (hr : Kept n q l W) (hpos : 0 < len)
      (hlen : len < 2 ^ 31) (hv : PayloadOf vdata len) (hgoes : q.Goes len type vdata)
      (h : q.push junk len type vdata = .ok (q', axRetOk)) :
      Kept n q' (l ++ [⟨len, q.headerOffset len, q'.posEnd - q.headerOffset len⟩])
        (q.writes len type vdata :: W)
  | full {junk : ℕ → UInt8} {q q' : QueueT} {l : List Pushed} {W : List Region} {len : ℕ}
      {type : Int32} {vdata : Option (List UInt8)} (hr : Kept n q l W) (hpos : 0 < len)
      (h : q.push junk len type vdata = .ok (q', axRetFull)) : Kept n q' l W
  | pop {q q' : QueueT} {l : List Pushed} {W : List Region} (hr : Kept n q l W)
      (hlong : ∀ x xs, l = x :: xs → 4 ≤ x.len ∨ xs = []) (h : q.pop = .ok q') : Kept n q' l.tail W

/-- What has been written is in the chunk, and the headers of the messages have been written. -/
structure WrittenIn (q : QueueT) (l : List Pushed) (W : List Region) : Prop where
  inside : ∀ r ∈ W, r.chunk = q.chunkBegin ∧ r.off + r.size ≤ (q.chunks q.chunkBegin).capacity
  header : ∀ x ∈ l, ∃ r ∈ W, r.chunk = q.chunkBegin ∧ r.off = x.off ∧ varMsgHlen ≤ r.size

lemma Single.chained (hs : Single q) (hc : Chained q q')
    (hzero : (q.chunks q.chunkBegin).nelems = 0) : Single q' := by
  refine ⟨?_, ?_, hc.chunkSpare, fun hne => absurd ?_ hne⟩
  · rw [hc.chunkEnd, hc.chunkBegin, hs.one_chunk]
  · rw [hc.chunkBegin, hc.nchunks]
    exact Nat.lt_succ_of_lt hs.begin_lt
  · rw [hc.chunkBegin, (hc.older _ hs.begin_lt).2.2, hzero]

/-- Where a message goes: the chunk stays, and the position is the one of the header. -/
lemma Headers.chosen (h : Headers q l) (junk : ℕ → UInt8)
    (hgoes : q.HasRoom len ∨ q.nelems = 0) :
    Headers (q.chosen junk len) l ∧ (q.chosen junk len).posEnd = q.headerOffset len ∧
      (q.chosen junk len).chunkBegin = q.chunkBegin ∧
      ((q.chosen junk len).chunks q.chunkBegin).capacity = (q.chunks q.chunkBegin).capacity := by
  by_cases hroom : q.HasRoom len
  · rw [QueueT.chosen, if_pos hroom, headerOffset, if_pos hroom]
    exact ⟨h, rfl, rfl, rfl⟩
  · have hnil : l = [] := List.length_eq_zero_iff.mp (h.nelems ▸ hgoes.resolve_left hroom)
    subst hnil
    have hc := nextChunk_chained junk (totalLen len) h.single.spare
    rw [QueueT.chosen, if_neg hroom, headerOffset, if_neg hroom]
    exact ⟨h.chained hc (h.single.chained hc h.chunk_nelems), hc.posEnd, hc.chunkBegin,
      (hc.older _ h.single.begin_lt).2.1⟩

/-- **A push** that writes over nothing. -/
lemma Headers.push (h : Headers q l) (hpos : 0 < len) (hlen : len < 2 ^ 31)
    (hv : PayloadOf vdata len) (hgoes : q.Goes len type vdata)
    (hok : q.push junk len type vdata = .ok (q', axRetOk)) :
    Headers q' (l ++ [⟨len, q.headerOffset len, q'.posEnd - q.headerOffset len⟩]) ∧
      q'.chunkBegin = q.chunkBegin ∧
      (q'.chunks q.chunkBegin).capacity = (q.chunks q.chunkBegin).capacity ∧
      q.headerOffset len + (msgBytes len type vdata).length ≤
        (q.chunks q.chunkBegin).capacity := by
  obtain ⟨hr, -⟩ | ⟨-, ht, hbound, rfl⟩ := push_cases hpos hok
  · exact absurd hr (by decide)
  · obtain ⟨h₁, hposEnd, hbegin, hcap⟩ := h.chosen junk (hgoes.imp id And.left)
    have hend : (q.chosen junk len).chunkEnd = q.chunkBegin := by
      rw [h₁.single.one_chunk, hbegin]
    have hge := (length_msgBytes_le type hv).1
    have hoff : q.headerOffset len + totalLen len ≤ capacityLimit := by
      rw [headerOffset]
      split_ifs with hroom
      · have hlt := (h.hasRoom_iff ht).mp hroom
        have hcap := h.cap_lt
        rw [← h.single.one_chunk] at hcap
        omega
      · rwa [Nat.zero_add]
    have hstride : ((q.chosen junk len).stored (msgBytes len type vdata) (totalLen len)).posEnd -
        q.headerOffset len = totalLen len := by
      show (q.chosen junk len).posEnd + totalLen len - _ = _
      rw [hposEnd, Nat.add_sub_cancel_left]
    rw [hstride, ← hposEnd]
    rw [← hposEnd] at hoff
    refine ⟨h₁.stored hlen rfl hoff (by omega), hbegin, ?_, ?_⟩
    · rw [← hend, stored_chunk_self, hend]
      exact hcap
    · rw [hend, hcap] at hbound
      exact hbound

/-- **When a push writes inside the chunk**: there is room, or the message fits into the chunk from
its start on. -/
lemma Headers.push_returns_iff (h : Headers q l) (hpos : 0 < len) (hlen : len < 2 ^ 31)
    (hv : PayloadOf vdata len) (ht : totalLen len ≤ capacityLimit) :
    (∃ q', q.push junk len type vdata = .ok (q', axRetOk)) ↔
      q.HasRoom len ∨ (msgBytes len type vdata).length ≤ (q.chunks q.chunkEnd).capacity := by
  have hbytes := (length_msgBytes_le type hv).2
  have htotal := totalLen_eq_max hlen
  have hone := h.single.one_chunk
  by_cases hroom : q.HasRoom len
  · have hchosen : q.chosen junk len = q := if_pos hroom
    have hlt := (h.hasRoom_iff ht).mp hroom
    refine ⟨fun _ => .inl hroom, fun _ => ?_⟩
    rw [push_eq hpos, if_neg (not_lt.mpr ht), hchosen, if_neg (by omega)]
    exact ⟨_, rfl⟩
  · have hc := nextChunk_chained junk (totalLen len) h.single.spare
    have hchosen : q.chosen junk len = q.nextChunk junk (totalLen len) := if_neg hroom
    have hcap : ((q.chosen junk len).chunks (q.chosen junk len).chunkEnd).capacity =
        (q.chunks q.chunkEnd).capacity := by
      rw [hchosen, hc.chunkEnd, hone, (hc.older _ h.single.begin_lt).2.1]
    have hzero : (q.chosen junk len).posEnd = 0 := by rw [hchosen, hc.posEnd]
    rw [push_eq hpos, if_neg (not_lt.mpr ht), hcap, hzero, Nat.zero_add]
    constructor
    · rintro ⟨q', hok⟩
      split_ifs at hok with hout
      exact .inr (not_lt.mp hout)
    · intro hin
      rw [if_neg (not_lt.mpr (hin.resolve_left hroom))]
      exact ⟨_, rfl⟩

/-- **Every such run** keeps the headers, and what is written inside the chunk. -/
lemma Kept.inv {W : List Region} (h : Kept n q l W) : Headers q l ∧ WrittenIn q l W := by
  induction h with
  | new h => exact ⟨.new h, nofun, nofun⟩
  | @push junk q q' l W len type vdata _ hpos hlen hv hgoes h ih =>
      obtain ⟨hq, hw⟩ := ih
      obtain ⟨hq', hbegin, hcap, hbound⟩ := hq.push hpos hlen hv hgoes h
      have hnew : (q.writes len type vdata).chunk = q.chunkBegin := hq.single.one_chunk
      refine ⟨hq', fun r hr => ?_, fun x hx => ?_⟩
      · rw [hbegin, hcap]
        rcases List.mem_cons.mp hr with rfl | hr
        · exact ⟨hnew, hbound⟩
        · exact hw.inside r hr
      · rw [hbegin]
        rcases List.mem_append.mp hx with hx | hx
        · obtain ⟨r, hr, hhead⟩ := hw.header x hx
          exact ⟨r, List.mem_cons_of_mem _ hr, hhead⟩
        · obtain rfl := List.mem_singleton.mp hx
          exact ⟨_, List.mem_cons_self, hnew, rfl, (length_msgBytes_le _ hv).1⟩
  | @full junk q q' l W len type vdata _ hpos h ih =>
      obtain ⟨-, rfl, -⟩ | ⟨hr, -⟩ := push_cases hpos h
      · exact ih
      · exact absurd hr (by decide)
  | @pop q q' l W _ hlong h ih =>
      obtain ⟨hq, hw⟩ := ih
      cases l with
      | nil =>
          have hzero : (q.chunks q.chunkBegin).nelems = 0 := hq.chunk_nelems
          rw [QueueT.pop, if_pos hzero] at h
          obtain rfl := Except.ok.inj h
          exact ⟨hq, hw⟩
      | cons x xs =>
          obtain ⟨q₁, hpop, hq₁, hcap, hbegin⟩ := hq.pop (hlong x xs rfl)
          obtain rfl := Except.ok.inj (hpop.symm.trans h)
          refine ⟨hq₁, fun r hr => ?_, fun y hy => ?_⟩
          · rw [hcap, hbegin]
            exact hw.inside r hr
          · rw [hbegin]
            exact hw.header y (List.mem_cons_of_mem x hy)

/-- **All accesses are inside.**  In every run whose messages go behind the last one, or into an
empty queue that they fit into, and in which a message popped has four bytes or more or is the last
one: every byte written is in its chunk; on a queue that is not empty the header that `front()` and
`pop()` read is in a region that has been written; such a `pop()` returns; and a push returns
exactly when there is room, or the message fits into the chunk. -/
theorem accesses_inside {W : List Region} (h : Kept n q l W) :
    (∀ r ∈ W, r.off + r.size ≤ (q.chunks r.chunk).capacity) ∧
    (q.count ≠ 0 → ∃ r ∈ W, r.chunk = q.chunkBegin ∧ (r.off : ℤ) ≤ q.posBegin ∧
      q.posBegin + varMsgHlen ≤ r.off + r.size) ∧
    ((∀ x xs, l = x :: xs → 4 ≤ x.len ∨ xs = []) → ∃ q', q.pop = .ok q') ∧
    ∀ (junk : ℕ → UInt8) (len : ℕ) (type : Int32) (vdata : Option (List UInt8)), 0 < len →
      len < 2 ^ 31 → PayloadOf vdata len → totalLen len ≤ capacityLimit →
      ((∃ q', q.push junk len type vdata = .ok (q', axRetOk)) ↔
        q.HasRoom len ∨ (msgBytes len type vdata).length ≤ (q.chunks q.chunkEnd).capacity) := by
  obtain ⟨hq, hw⟩ := h.inv
  refine ⟨fun r hr => ?_, fun hne => ?_, fun hlong => ?_, fun junk len type vdata hpos hlen hv ht =>
    hq.push_returns_iff hpos hlen hv ht⟩
  · rw [(hw.inside r hr).1]
    exact (hw.inside r hr).2
  · cases l with
    | nil => exact absurd hq.nelems hne
    | cons x xs =>
        obtain ⟨r, hr, hchunk, hoff, hsize⟩ := hw.header x List.mem_cons_self
        have hbegin := hq.front.1
        refine ⟨r, hr, hchunk, ?_, ?_⟩
        · rw [hbegin, hoff]
        · rw [hbegin, hoff]
          exact_mod_cast Nat.add_le_add_left hsize _
  · cases l with
    | nil =>
        have hzero : (q.chunks q.chunkBegin).nelems = 0 := hq.chunk_nelems
        exact ⟨q, if_pos hzero⟩
    | cons x xs =>
        obtain ⟨q', hpop, -⟩ := hq.pop (hlong x xs rfl)
        exact ⟨q', hpop⟩

/-- One message in a chunk of 20 bytes. -/
theorem accesses_inside_one : ∃ q, Kept 20 q [⟨4, 0, 12⟩] [⟨0, 0, 12⟩] ∧ ∃ q', q.pop = .ok q' := by
  have h₀ : Kept 20 _ [] [] := .new (show QueueT.new (fun _ => 0) 20 = .ok _ from rfl)
  have h₁ : Kept 20 _ [⟨4, 0, 12⟩] [⟨0, 0, 12⟩] := .push h₀ (Nat.succ_pos 3) (by decide)
    (fun d hd => by obtain rfl := Option.some.inj hd; rfl) (.inl (by decide))
    (show QueueT.push _ (fun _ => 0) (4 : ℕ) 5 (some [1, 2, 3, 4]) = .ok (_, _) from rfl)
  refine ⟨_, h₁, (accesses_inside h₁).2.2.1 ?_⟩
  rintro x xs hl
  exact .inr (List.cons.inj hl).2.symm

/-- **A message larger than the chunk** is written beyond its end: 28 bytes into a chunk of 20. -/
theorem access_outside : ∃ q, Kept 20 q [] [] ∧ totalLen 20 ≤ capacityLimit ∧
    q.push (fun _ => 0) (20 : ℕ) 5 (some (List.replicate 20 1)) = .error .badAccess := by
  have h₀ : Kept 20 _ [] [] := .new (show QueueT.new (fun _ => 0) 20 = .ok _ from rfl)
  exact ⟨_, h₀, by decide, rfl⟩

end QueueT

end Axon
