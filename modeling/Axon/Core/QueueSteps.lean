import Axon.Core.Queue

/-!
# What `push` and `pop` of `queue_t` can do

`chunk_end_` is set by the constructor and by nothing else, and every push leaves `chunk_back_` at
`chunk_end_`.  A queue therefore never leaves its first chunk.

* **`HasRoom`** : the test of `push` for room behind the last message.
* **`push_eq`** : `push` refuses the message, or stores it.
* **`Chained`** : what a push without room changes before it stores.
* **`Single`** : the queue is in one chunk, and no chunk is spare.
* **`Single.pop_cases`** : `pop` does nothing, advances, or empties the queue.
-/

namespace Axon

open Library

namespace QueueT

variable {q q' : QueueT} {junk : ℕ → UInt8} {n total : ℕ} {type : Int32}
  {vdata : Option (List UInt8)} {r : ℤ}

/-! ## `push` -/

/-- The room a message takes up: its bytes, but at least a `var_msg_t`. -/
lemma totalLen_eq_max (hn : n < 2 ^ 31) : totalLen n = max sizeofVarMsg (varMsgHlen + n) := by
  rw [totalLen, u32_of_lt (by simp only [varMsgHlen]; omega)]
  split_ifs with h <;> omega

/-- `pos_end_ + total_len < chunk_end_->capacity`. -/
def HasRoom (q : QueueT) (n : ℕ) : Prop :=
  u32 (q.posEnd + totalLen n) < (q.chunks q.chunkEnd).capacity

instance (q : QueueT) (n : ℕ) : Decidable (q.HasRoom n) := inferInstanceAs (Decidable (_ < _))

/-- The queue once `push` has chosen where the message goes. -/
def chosen (q : QueueT) (junk : ℕ → UInt8) (n : ℕ) : QueueT :=
  if q.HasRoom n then q else q.nextChunk junk (totalLen n)

/-- The end of `push`: the bytes are stored at `pos_end_` of `chunk_end_`. -/
def stored (q : QueueT) (bytes : List UInt8) (total : ℕ) : QueueT :=
  { q.setChunk q.chunkEnd fun k =>
      { k with data := blit k.data q.posEnd bytes, nelems := k.nelems + 1 } with
    chunkBack := some q.chunkEnd
    posBack := q.posEnd
    posEnd := q.posEnd + total
    nelems := q.nelems + 1 }

/-- **`push`** refuses the message, or stores it. -/
lemma push_eq (hn : 0 < n) : q.push junk n type vdata =
    if capacityLimit < totalLen n then .ok (q, axRetFull)
    else if ((q.chosen junk n).chunks (q.chosen junk n).chunkEnd).capacity <
        (q.chosen junk n).posEnd + (msgBytes n type vdata).length then .error .badAccess
    else .ok ((q.chosen junk n).stored (msgBytes n type vdata) (totalLen n), axRetOk) := by
  rw [push, rtAssert_of_pos (by exact_mod_cast hn)]
  rfl

/-- A message that is too large is refused and changes nothing. -/
lemma push_refused (hn : 0 < n) (h : capacityLimit < totalLen n) :
    q.push junk n type vdata = .ok (q, axRetFull) := by
  rw [push_eq hn, if_pos h]

/-- What a push that returned has done. -/
lemma push_cases (hn : 0 < n) (h : q.push junk n type vdata = .ok (q', r)) :
    (r = axRetFull ∧ q' = q ∧ capacityLimit < totalLen n) ∨
      (r = axRetOk ∧ totalLen n ≤ capacityLimit ∧
        (q.chosen junk n).posEnd + (msgBytes n type vdata).length ≤
          ((q.chosen junk n).chunks (q.chosen junk n).chunkEnd).capacity ∧
        q' = (q.chosen junk n).stored (msgBytes n type vdata) (totalLen n)) := by
  rw [push_eq hn] at h
  split_ifs at h with hfull hbound
  · obtain ⟨rfl, rfl⟩ := Prod.mk.inj (Except.ok.inj h)
    exact .inl ⟨rfl, rfl, hfull⟩
  · obtain ⟨rfl, rfl⟩ := Prod.mk.inj (Except.ok.inj h)
    exact .inr ⟨rfl, not_lt.mp hfull, not_lt.mp hbound, rfl⟩

/-- What a push without room changes before it stores: a new chunk hangs behind `chunk_end_`, and
`pos_end_` starts again. -/
structure Chained (q q' : QueueT) : Prop where
  chunkBegin : q'.chunkBegin = q.chunkBegin
  chunkEnd : q'.chunkEnd = q.chunkEnd
  posBegin : q'.posBegin = q.posBegin
  posEnd : q'.posEnd = 0
  nelems : q'.nelems = q.nelems
  chunkSpare : q'.chunkSpare = none
  nchunks : q'.nchunks = q.nchunks + 1
  /-- The older chunks keep what is in them. -/
  older : ∀ c < q.nchunks, (q'.chunks c).data = (q.chunks c).data ∧
    (q'.chunks c).capacity = (q.chunks c).capacity ∧ (q'.chunks c).nelems = (q.chunks c).nelems

lemma nextChunk_chained (junk : ℕ → UInt8) (total : ℕ) (hspare : q.chunkSpare = none) :
    Chained q (q.nextChunk junk total) := by
  have hnext : q.nextChunk junk total =
      { (q.setChunk q.nchunks fun _ =>
          { newChunk junk (max q.eachCapacity total) with prev := some q.chunkEnd }).setChunk
            q.chunkEnd fun k => { k with next := some q.nchunks } with
        nchunks := q.nchunks + 1, chunkBack := some q.nchunks, posEnd := 0 } := by
    rw [nextChunk, hspare]
    rfl
  rw [hnext]
  refine ⟨rfl, rfl, rfl, rfl, rfl, hspare, rfl, fun c hc => ?_⟩
  have hne : c ≠ q.nchunks := Nat.ne_of_lt hc
  rcases eq_or_ne c q.chunkEnd with rfl | hce
  · simp [setChunk, hne]
  · simp [setChunk, hne, hce]

@[simp] lemma stored_chunk_self (bytes : List UInt8) :
    (q.stored bytes total).chunks q.chunkEnd = { q.chunks q.chunkEnd with
      data := blit (q.chunks q.chunkEnd).data q.posEnd bytes
      nelems := (q.chunks q.chunkEnd).nelems + 1 } := Function.update_self ..

/-! ## `pop` -/

/-- A message is taken off the front: the position moves over it, and the counters go down. -/
def advanced (q : QueueT) : QueueT :=
  { q with
    posBegin := Int.bmod (q.posBegin + varMsgHlen + q.front.length) (2 ^ 32)
    nelems := q.nelems - 1 }.setChunk q.chunkBegin fun k => { k with nelems := k.nelems - 1 }

/-- The queue without messages. -/
def emptied (q : QueueT) : QueueT :=
  { q.advanced with posBack := 0, chunkBack := none, posEnd := 0, posBegin := 0 }

/-- The header that `pop` and `front` read is inside its chunk. -/
def HeaderInside (q : QueueT) : Prop :=
  0 ≤ q.posBegin ∧ q.posBegin + varMsgHlen ≤ ((q.chunks q.chunkBegin).capacity : ℤ)

@[simp] lemma advanced_chunk_self : q.advanced.chunks q.chunkBegin =
    { q.chunks q.chunkBegin with nelems := (q.chunks q.chunkBegin).nelems - 1 } := by
  simp [advanced, setChunk]

/-- The position behind a message that ends inside `int`. -/
lemma advanced_posBegin {off len : ℕ} (hoff : q.posBegin = off) (hfront : q.front.length = len)
    (hlt : off + varMsgHlen + len < 2 ^ 31) :
    q.advanced.posBegin = ((off + varMsgHlen + len : ℕ) : ℤ) := by
  show Int.bmod (q.posBegin + varMsgHlen + q.front.length) (2 ^ 32) = _
  rw [hfront, hoff, Int.bmod_eq_of_le (by omega) (by omega)]
  push_cast
  rfl

/-- The queue is in one chunk, no chunk is spare, and a message is in that chunk. -/
structure Single (q : QueueT) : Prop where
  one_chunk : q.chunkEnd = q.chunkBegin
  begin_lt : q.chunkBegin < q.nchunks
  spare : q.chunkSpare = none
  back : (q.chunks q.chunkBegin).nelems ≠ 0 → q.chunkBack = some q.chunkBegin

namespace Single

/-- A pop of the last message empties the queue. -/
lemma pop_last (hs : Single q) (hhead : q.HeaderInside)
    (hone : (q.chunks q.chunkBegin).nelems = 1) :
    q.pop = .ok q.emptied := by
  have hin : ¬ (q.posBegin < 0 ∨
      ((q.chunks q.chunkBegin).capacity : ℤ) < q.posBegin + varMsgHlen) := by
    rintro (h | h)
    · exact absurd hhead.1 (not_le.mpr h)
    · exact absurd hhead.2 (not_le.mpr h)
  rw [pop, if_neg (by omega), if_neg hin]
  simp only [setChunk, Function.update_self, hone, Nat.sub_self, if_true,
    if_pos (hs.back (by omega)), rtAssert_of_pos hs.one_chunk, ok_bind]
  rw [emptied, advanced, setChunk]
  simp only [hone, Nat.sub_self]
  rfl

/-- A pop of another message advances. -/
lemma pop_more (hhead : q.HeaderInside) (hmore : 1 < (q.chunks q.chunkBegin).nelems) :
    q.pop = .ok q.advanced := by
  have hin : ¬ (q.posBegin < 0 ∨
      ((q.chunks q.chunkBegin).capacity : ℤ) < q.posBegin + varMsgHlen) := by
    rintro (h | h)
    · exact absurd hhead.1 (not_le.mpr h)
    · exact absurd hhead.2 (not_le.mpr h)
  have hne : ¬ (q.chunks q.chunkBegin).nelems - 1 = 0 := by omega
  rw [pop, if_neg (by omega), if_neg hin]
  simp only [setChunk, Function.update_self, if_neg hne]
  rfl

/-- **What a pop that returned has done.** -/
lemma pop_cases (hs : Single q) (h : q.pop = .ok q') :
    ((q.chunks q.chunkBegin).nelems = 0 ∧ q' = q) ∨
      (q.HeaderInside ∧ (q.chunks q.chunkBegin).nelems = 1 ∧ q' = q.emptied) ∨
      (q.HeaderInside ∧ 1 < (q.chunks q.chunkBegin).nelems ∧ q' = q.advanced) := by
  by_cases hzero : (q.chunks q.chunkBegin).nelems = 0
  · rw [pop, if_pos hzero] at h
    exact .inl ⟨hzero, (Except.ok.inj h).symm⟩
  · have hhead : q.HeaderInside := by
      by_contra hout
      rw [pop, if_neg hzero, if_pos] at h
      · exact absurd h nofun
      · by_contra hin
        rw [not_or, not_lt, not_lt] at hin
        exact hout hin
    by_cases hone : (q.chunks q.chunkBegin).nelems = 1
    · rw [hs.pop_last hhead hone] at h
      exact .inr (.inl ⟨hhead, hone, (Except.ok.inj h).symm⟩)
    · have hmore : 1 < (q.chunks q.chunkBegin).nelems := by omega
      rw [pop_more hhead hmore] at h
      exact .inr (.inr ⟨hhead, hmore, (Except.ok.inj h).symm⟩)

lemma stored (hs : Single q) (bytes : List UInt8) : Single (q.stored bytes total) :=
  ⟨hs.one_chunk, hs.begin_lt, hs.spare, fun _ => congrArg some hs.one_chunk⟩

/-- A queue after a push that did not find room. -/
lemma chosen_stored (hs : Single q) (bytes : List UInt8) :
    Single ((q.chosen junk n).stored bytes total) := by
  rw [QueueT.chosen]
  split_ifs with hroom
  · exact hs.stored bytes
  · have hchain := nextChunk_chained junk (totalLen n) hs.spare
    have hend : (q.nextChunk junk (totalLen n)).chunkEnd =
        (q.nextChunk junk (totalLen n)).chunkBegin := by
      rw [hchain.chunkEnd, hchain.chunkBegin, hs.one_chunk]
    refine ⟨hend, ?_, hchain.chunkSpare, fun _ => congrArg some hend⟩
    show (q.nextChunk junk (totalLen n)).chunkBegin < (q.nextChunk junk (totalLen n)).nchunks
    rw [hchain.chunkBegin, hchain.nchunks]
    exact Nat.lt_succ_of_lt hs.begin_lt

lemma push (hs : Single q) (hn : 0 < n) (h : q.push junk n type vdata = .ok (q', r)) :
    Single q' := by
  obtain ⟨-, rfl, -⟩ | ⟨-, -, -, rfl⟩ := push_cases hn h
  · exact hs
  · exact hs.chosen_stored _

lemma pop (hs : Single q) (h : q.pop = .ok q') : Single q' := by
  obtain ⟨-, rfl⟩ | ⟨-, hone, rfl⟩ | ⟨-, hmore, rfl⟩ := hs.pop_cases h
  · exact hs
  · refine ⟨hs.one_chunk, hs.begin_lt, hs.spare, fun hne => ?_⟩
    have hzero : (q.emptied.chunks q.chunkBegin).nelems = 0 := by
      rw [show q.emptied.chunks = q.advanced.chunks from rfl, advanced_chunk_self, hone]
    exact absurd hzero hne
  · exact ⟨hs.one_chunk, hs.begin_lt, hs.spare, fun _ => hs.back (by omega)⟩

lemma new (h : QueueT.new junk n = .ok q) : Single q := by
  obtain ⟨-, -, h⟩ := bind_eq_ok h
  obtain rfl := Except.ok.inj h
  exact ⟨rfl, Nat.zero_lt_one, rfl, fun hne => absurd rfl hne⟩

end Single

end QueueT

end Axon
