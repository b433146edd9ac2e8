import Axon.Core.QueueSteps

/-!
# When `queue_t` is a first-in first-out queue

`Laid m off l e` says that the messages `l` lie one behind the other in a chunk, from offset `off`
to offset `e`.  While a queue stays in its first chunk, the messages not yet popped are laid out
from `pos_begin_` to `pos_end_`, `push` extends the layout at the end and `pop` shortens it at the
front.

Two things break it.  A message that does not fit behind the last one gets a new chunk, but
`chunk_end_` is not moved to it, and the message is written over the first one.  And `pop` advances
by the header and the payload, while `push` advanced by at least `sizeof(var_msg_t)`: behind a
message of less than four bytes the two disagree.  `fifo_of_run` is the queue without these two
cases, `fifo_fails` shows both.
-/

namespace Axon

open Library

namespace QueueT

/-- A message that has been pushed. -/
structure QMsg where
  type : Int32
  data : List UInt8
deriving DecidableEq

/-- What `front()` should show of it. -/
def QMsg.toVarMsg (x : QMsg) : VarMsg := ⟨x.data.length, x.type, x.data⟩

/-- Its bytes in memory. -/
def QMsg.bytes (x : QMsg) : List UInt8 := msgBytes x.data.length x.type (some x.data)

lemma length_msgBytes (n : ℕ) (type : Int32) (data : List UInt8) :
    (msgBytes n type (some data)).length = varMsgHlen + data.length := by
  simp only [msgBytes, List.length_append, length_le32, Option.getD_some, varMsgHlen]

/-- Messages `push` accepts. -/
structure QMsg.Ok (x : QMsg) : Prop where
  ne_nil : x.data ≠ []
  total_le : totalLen x.data.length ≤ capacityLimit
  length_lt : x.data.length < 2 ^ 31

/-- Memory that shows the bytes of a message shows the message. -/
lemma msgAt_of_window {k : BufChunkT} {off : ℕ} {x : QMsg} (hlen : x.data.length < 2 ^ 31)
    (h : window k.data off (varMsgHlen + x.data.length) = x.bytes) :
    msgAt k off = x.toVarMsg := by
  have hsplit : varMsgHlen + x.data.length = 4 + 4 + x.data.length := rfl
  rw [hsplit, window_append, window_append, QMsg.bytes, msgBytes] at h
  obtain ⟨hhead, hdata⟩ := List.append_inj h (by simp)
  obtain ⟨hlength, htype⟩ := List.append_inj hhead (by simp)
  have hbits : intBits x.data.length < 2 ^ 32 := by
    rw [intBits]
    omega
  have h1 : word32 k.data off = intBits x.data.length := word32_of_window hbits hlength
  have h2 : word32 k.data (off + 4) = x.type.toUInt32.toNat :=
    word32_of_window (UInt32.toNat_lt _) htype
  have hl : bitsInt (intBits x.data.length) = x.data.length := bitsInt_intBits hlen
  rw [msgAt, h1, h2, hl, QMsg.toVarMsg]
  congr 1
  simp

/-! ## Layouts -/

/-- The messages `l` lie one behind the other from offset `off` to offset `e`. -/
def Laid (m : ℕ → UInt8) : ℕ → List QMsg → ℕ → Prop
  | off, [], e => off = e
  | off, x :: xs, e => x.Ok ∧ window m off (varMsgHlen + x.data.length) = x.bytes ∧
      Laid m (off + totalLen x.data.length) xs e

lemma Laid.le {m : ℕ → UInt8} : ∀ {l : List QMsg} {off e : ℕ}, Laid m off l e → off ≤ e
  | [], _, _, h => le_of_eq h
  | x :: xs, off, e, ⟨_, _, h⟩ => by
      have := h.le
      omega

/-- A layout only depends on the memory before its end. -/
lemma Laid.congr {m m' : ℕ → UInt8} : ∀ {l : List QMsg} {off e : ℕ}, Laid m off l e →
    (∀ i < e, m' i = m i) → Laid m' off l e
  | [], _, _, h, _ => h
  | x :: xs, off, e, ⟨hok, hw, h⟩, heq => by
      refine ⟨hok, ?_, h.congr heq⟩
      have hle := h.le
      have ht := totalLen_eq_max hok.length_lt
      rw [← hw]
      exact window_congr fun i hi => heq _ (by omega)

/-- A message stored at the end of a layout extends it. -/
lemma Laid.append {m : ℕ → UInt8} {x : QMsg} (hok : x.Ok) :
    ∀ {l : List QMsg} {off e : ℕ}, Laid m off l e →
      window m e (varMsgHlen + x.data.length) = x.bytes →
      Laid m off (l ++ [x]) (e + totalLen x.data.length)
  | [], _, _, rfl, hw => ⟨hok, hw, rfl⟩
  | _ :: _, _, _, ⟨hok', hw', h⟩, hw => ⟨hok', hw', h.append hok hw⟩

/-! ## The invariant of a queue in one chunk -/

/-- The queue `q` holds the messages `l`, all in one chunk. -/
structure Inv (q : QueueT) (l : List QMsg) : Prop where
  one_chunk : q.chunkEnd = q.chunkBegin
  begin_lt : q.chunkBegin < q.nchunks
  spare : q.chunkSpare = none
  laid : ∃ off : ℕ, q.posBegin = off ∧ Laid (q.chunks q.chunkBegin).data off l q.posEnd
  end_le : q.posEnd ≤ (q.chunks q.chunkBegin).capacity
  cap_lt : (q.chunks q.chunkBegin).capacity < capacityLimit
  chunk_nelems : (q.chunks q.chunkBegin).nelems = l.length
  nelems : q.nelems = l.length
  back : l ≠ [] → q.chunkBack = some q.chunkBegin
  empty : l = [] → q.posBegin = 0 ∧ q.posEnd = 0

/-- **The contract of a queue** that should hold `l`: `front()` is the oldest message, `pop()`
leaves an empty queue alone, `count()` counts. -/
structure Fifo (q : QueueT) (l : List QMsg) : Prop where
  front : ∀ x xs, l = x :: xs → q.front = x.toVarMsg
  pop_empty : l = [] → q.pop = .ok q
  count : q.count = l.length

lemma Inv.front_eq {q : QueueT} {x : QMsg} {xs : List QMsg} (h : Inv q (x :: xs)) :
    q.front = x.toVarMsg := by
  obtain ⟨off, hoff, hok, hw, -⟩ := h.laid
  rw [front, hoff, Int.toNat_natCast]
  exact msgAt_of_window hok.length_lt hw

lemma Inv.fifo {q : QueueT} {l : List QMsg} (h : Inv q l) : Fifo q l where
  front := by
    rintro x xs rfl
    exact h.front_eq
  pop_empty := by
    rintro rfl
    have hn : (q.chunks q.chunkBegin).nelems = 0 := h.chunk_nelems
    rw [pop, if_pos hn]
  count := h.nelems

lemma inv_new {junk : ℕ → UInt8} {n : ℕ} {q : QueueT} (h : new junk n = .ok q) : Inv q [] := by
  obtain ⟨u, hu, h⟩ := bind_eq_ok h
  obtain rfl := Except.ok.inj h
  exact
    { one_chunk := rfl, begin_lt := Nat.zero_lt_one, spare := rfl, laid := ⟨0, rfl, rfl⟩,
      end_le := Nat.zero_le _, cap_lt := rtAssert_eq_ok hu, chunk_nelems := rfl, nelems := rfl,
      back := fun h => absurd rfl h, empty := fun _ => ⟨rfl, rfl⟩ }

/-- The message of `n` payload bytes goes into the chunk the queue is in: it fits behind the last
one with a byte to spare, or it fills the chunk of an empty queue exactly. -/
def Fits (q : QueueT) (n : ℕ) : Prop :=
  q.posEnd + totalLen n < (q.chunks q.chunkEnd).capacity ∨
    (q.nelems = 0 ∧ totalLen n = (q.chunks q.chunkEnd).capacity)

lemma Inv.single {q : QueueT} {l : List QMsg} (h : Inv q l) : Single q where
  one_chunk := h.one_chunk
  begin_lt := h.begin_lt
  spare := h.spare
  back hne := h.back fun hl => hne (by rw [h.chunk_nelems, hl, List.length_nil])

/-- Where `push` writes: after the choice of the chunk, the queue is in the same chunk, at the same
position, and the rest of what matters is as before. -/
lemma Inv.chosen {q : QueueT} {l : List QMsg} (h : Inv q l) (junk : ℕ → UInt8) {n : ℕ}
    (hfit : q.Fits n) (ht : totalLen n ≤ capacityLimit) :
    Inv (q.chosen junk n) l ∧ (q.chosen junk n).posEnd + totalLen n ≤
      ((q.chosen junk n).chunks (q.chosen junk n).chunkEnd).capacity := by
  have hend := h.end_le
  have hcap := h.cap_lt
  simp only [capacityLimit] at hcap ht
  have hu : u32 (q.posEnd + totalLen n) = q.posEnd + totalLen n := u32_of_lt (by omega)
  by_cases hroom : q.HasRoom n
  · rw [QueueT.chosen, if_pos hroom]
    rw [HasRoom, hu] at hroom
    exact ⟨h, hroom.le⟩
  · rw [QueueT.chosen, if_neg hroom]
    rw [HasRoom, hu] at hroom
    -- an empty queue and a message that fills the chunk: a new chunk is chained but not used
    obtain ⟨hzero, hfull⟩ := hfit.resolve_left hroom
    obtain rfl : l = [] := List.length_eq_zero_iff.mp (h.nelems ▸ hzero)
    obtain ⟨hbegin, -⟩ := h.empty rfl
    have hchain := nextChunk_chained junk (totalLen n) h.spare
    obtain ⟨-, hcap', hnel⟩ := hchain.older q.chunkBegin h.begin_lt
    refine ⟨⟨?_, ?_, hchain.chunkSpare, ⟨0, ?_, hchain.posEnd.symm⟩, ?_, ?_, ?_, ?_,
      fun hne => absurd rfl hne, fun _ => ⟨?_, hchain.posEnd⟩⟩, ?_⟩
    · rw [hchain.chunkEnd, hchain.chunkBegin, h.one_chunk]
    · rw [hchain.chunkBegin, hchain.nchunks]
      exact Nat.lt_succ_of_lt h.begin_lt
    · rw [hchain.posBegin, hbegin]
      rfl
    · rw [hchain.posEnd]
      exact Nat.zero_le _
    · rw [hchain.chunkBegin, hcap']
      exact h.cap_lt
    · rw [hchain.chunkBegin, hnel, h.chunk_nelems]
    · rw [hchain.nelems, h.nelems]
    · rw [hchain.posBegin, hbegin]
    · rw [hchain.posEnd, hchain.chunkEnd, h.one_chunk, hcap', Nat.zero_add, hfull, h.one_chunk]

/-- A message stored behind the others. -/
lemma Inv.stored {q : QueueT} {l : List QMsg} {x : QMsg} (h : Inv q l) (hok : x.Ok)
    (hroom : q.posEnd + totalLen x.data.length ≤ (q.chunks q.chunkEnd).capacity) :
    Inv (q.stored x.bytes (totalLen x.data.length)) (l ++ [x]) := by
  obtain ⟨off, hoff, hlaid⟩ := h.laid
  have hone := h.one_chunk
  have hsingle : Single (q.stored x.bytes (totalLen x.data.length)) := h.single.stored _
  have hchunk : (q.stored x.bytes (totalLen x.data.length)).chunks q.chunkEnd = _ :=
    stored_chunk_self _
  rw [hone] at hchunk hroom
  refine ⟨hsingle.one_chunk, hsingle.begin_lt, hsingle.spare, ⟨off, hoff, ?_⟩, ?_, ?_, ?_, ?_,
    fun _ => congrArg some hone, fun hnil => absurd hnil (by simp)⟩
  · have hself := window_blit_self (q.chunks q.chunkBegin).data q.posEnd x.bytes
    rw [QMsg.bytes, length_msgBytes] at hself
    show Laid ((q.stored _ _).chunks q.chunkBegin).data _ _ _
    rw [hchunk]
    refine Laid.append hok (hlaid.congr fun k hk => ?_) hself
    exact blit_of_outside _ (.inl hk)
  · show _ ≤ ((q.stored _ _).chunks q.chunkBegin).capacity
    rw [hchunk]
    exact hroom
  · show ((q.stored _ _).chunks q.chunkBegin).capacity < _
    rw [hchunk]
    exact h.cap_lt
  · show ((q.stored _ _).chunks q.chunkBegin).nelems = _
    rw [hchunk, h.chunk_nelems, List.length_append, List.length_singleton]
  · show q.nelems + 1 = _
    rw [h.nelems, List.length_append, List.length_singleton]

/-- **A push that stays in the chunk appends.** -/
lemma Inv.push {q : QueueT} {l : List QMsg} (h : Inv q l) (junk : ℕ → UInt8) {x : QMsg}
    (hok : x.Ok) (hfit : q.Fits x.data.length) :
    ∃ q', q.push junk x.data.length x.type (some x.data) = .ok (q', axRetOk) ∧
      Inv q' (l ++ [x]) := by
  obtain ⟨hinv, hroom⟩ := h.chosen junk hfit hok.total_le
  have htot := totalLen_eq_max hok.length_lt
  refine ⟨_, ?_, hinv.stored hok hroom⟩
  rw [push_eq (List.length_pos_of_ne_nil hok.ne_nil), if_neg (not_lt.mpr hok.total_le), if_neg]
  · rfl
  · rw [length_msgBytes]
    omega

/-- The oldest message is inside the chunk, and `pop` steps over its bytes. -/
lemma Inv.oldest {q : QueueT} {x : QMsg} {xs : List QMsg} (h : Inv q (x :: xs)) :
    q.HeaderInside ∧ ∃ off : ℕ, q.advanced.posBegin = ((off + varMsgHlen + x.data.length : ℕ) : ℤ) ∧
      Laid (q.chunks q.chunkBegin).data (off + totalLen x.data.length) xs q.posEnd := by
  obtain ⟨off, hoff, hok, -, hlaid⟩ := h.laid
  have hfront : q.front.length = x.data.length := by
    rw [h.front_eq]
    rfl
  have hle := hlaid.le
  have hend := h.end_le
  have hcap := h.cap_lt
  have htot := totalLen_eq_max hok.length_lt
  simp only [varMsgHlen, sizeofVarMsg, capacityLimit] at htot hcap
  refine ⟨⟨?_, ?_⟩, off, advanced_posBegin hoff hfront ?_, hlaid⟩
  · omega
  · rw [hoff]
    simp only [varMsgHlen]
    omega
  · simp only [varMsgHlen]
    omega

/-- The only message is taken off. -/
lemma Inv.emptied {q : QueueT} {x : QMsg} (h : Inv q [x]) : Inv q.emptied [] where
  one_chunk := h.one_chunk
  begin_lt := h.begin_lt
  spare := h.spare
  laid := ⟨0, rfl, rfl⟩
  end_le := Nat.zero_le _
  cap_lt := by
    show (q.advanced.chunks q.chunkBegin).capacity < _
    rw [advanced_chunk_self]
    exact h.cap_lt
  chunk_nelems := by
    show (q.advanced.chunks q.chunkBegin).nelems = 0
    rw [advanced_chunk_self, h.chunk_nelems]
    rfl
  nelems := by
    show q.nelems - 1 = 0
    rw [h.nelems]
    rfl
  back hne := absurd rfl hne
  empty _ := ⟨rfl, rfl⟩

/-- A message that fills a `var_msg_t` is taken off, and others are left. -/
lemma Inv.advanced {q : QueueT} {x y : QMsg} {xs : List QMsg} (h : Inv q (x :: y :: xs))
    (hlong : 4 ≤ x.data.length) : Inv q.advanced (y :: xs) := by
  obtain ⟨-, off, hpos, hlaid⟩ := h.oldest
  obtain ⟨-, -, hok, -⟩ := h.laid
  have hstride : off + varMsgHlen + x.data.length = off + totalLen x.data.length := by
    rw [totalLen_eq_max hok.length_lt]
    simp only [varMsgHlen, sizeofVarMsg]
    omega
  rw [hstride] at hpos
  have hself := advanced_chunk_self (q := q)
  refine ⟨h.one_chunk, h.begin_lt, h.spare, ⟨_, hpos, ?_⟩, ?_, ?_, ?_, ?_,
    fun _ => h.back (by simp), fun hnil => absurd hnil (by simp)⟩
  · show Laid (q.advanced.chunks q.chunkBegin).data _ _ _
    rw [hself]
    exact hlaid
  · show _ ≤ (q.advanced.chunks q.chunkBegin).capacity
    rw [hself]
    exact h.end_le
  · show (q.advanced.chunks q.chunkBegin).capacity < _
    rw [hself]
    exact h.cap_lt
  · show (q.advanced.chunks q.chunkBegin).nelems = _
    rw [hself, h.chunk_nelems]
    rfl
  · show q.nelems - 1 = _
    rw [h.nelems]
    rfl

/-- **A pop that does not meet a short message with others behind it removes the oldest.** -/
lemma Inv.pop {q : QueueT} {x : QMsg} {xs : List QMsg} (h : Inv q (x :: xs))
    (hshort : 4 ≤ x.data.length ∨ xs = []) : ∃ q', q.pop = .ok q' ∧ Inv q' xs := by
  obtain ⟨hhead, -⟩ := h.oldest
  have hnel := h.chunk_nelems
  rw [List.length_cons] at hnel
  cases xs with
  | nil => exact ⟨_, h.single.pop_last hhead hnel, h.emptied⟩
  | cons y ys =>
      have hlong := hshort.resolve_right (by simp)
      have hmore : 1 < (q.chunks q.chunkBegin).nelems := by
        rw [hnel, List.length_cons]
        omega
      exact ⟨_, Single.pop_more hhead hmore, h.advanced hlong⟩

/-! ## Every run -/

/-- The calls a client makes. -/
inductive QueueOp where
  | push (x : QMsg)
  | pop

/-- The states a queue of initial chunk size `n` reaches by calls that all satisfy `P`, each with
the messages pushed and not yet popped.  A push that returns `AX_RET_FULL` is ignored. -/
inductive Run (P : QueueT → List QMsg → QueueOp → Prop) (n : ℕ) : QueueT → List QMsg → Prop
  | new {junk : ℕ → UInt8} {q : QueueT} (h : QueueT.new junk n = .ok q) : Run P n q []
  | push {junk : ℕ → UInt8} {q q' : QueueT} {l : List QMsg} {x : QMsg} (hr : Run P n q l)
      (hx : x.data ≠ []) (hlen : x.data.length < 2 ^ 31) (hp : P q l (.push x))
      (h : q.push junk x.data.length x.type (some x.data) = .ok (q', axRetOk)) :
      Run P n q' (l ++ [x])
  | full {junk : ℕ → UInt8} {q q' : QueueT} {l : List QMsg} {x : QMsg} (hr : Run P n q l)
      (hx : x.data ≠ []) (hlen : x.data.length < 2 ^ 31) (hp : P q l (.push x))
      (h : q.push junk x.data.length x.type (some x.data) = .ok (q', axRetFull)) : Run P n q' l
  | pop {q q' : QueueT} {l : List QMsg} (hr : Run P n q l) (hp : P q l .pop)
      (h : q.pop = .ok q') : Run P n q' l.tail

/-- The calls that meet neither defect: a message pushed is refused or goes into the chunk the queue
is in, and a message popped has at least four bytes or is the last one. -/
def Harmless (q : QueueT) (l : List QMsg) : QueueOp → Prop
  | .push x => totalLen x.data.length ≤ capacityLimit → q.Fits x.data.length
  | .pop => ∀ x xs, l = x :: xs → 4 ≤ x.data.length ∨ xs = []

/-- What a harmless push does: it is refused, or it appends. -/
lemma Inv.push_cases {q q' : QueueT} {l : List QMsg} {junk : ℕ → UInt8} {x : QMsg} {r : ℤ}
    (hi : Inv q l) (hx : x.data ≠ []) (hlen : x.data.length < 2 ^ 31)
    (hp : Harmless q l (.push x))
    (h : q.push junk x.data.length x.type (some x.data) = .ok (q', r)) :
    (r = axRetFull ∧ q' = q) ∨ (r = axRetOk ∧ Inv q' (l ++ [x])) := by
  by_cases ht : totalLen x.data.length ≤ capacityLimit
  · obtain ⟨q₁, h₁, hi₁⟩ := hi.push junk ⟨hx, ht, hlen⟩ (hp ht)
    rw [h₁] at h
    obtain ⟨rfl, rfl⟩ := Prod.mk.inj (Except.ok.inj h)
    exact Or.inr ⟨rfl, hi₁⟩
  · rw [push_refused (List.length_pos_of_ne_nil hx) (not_le.mp ht)] at h
    obtain ⟨rfl, rfl⟩ := Prod.mk.inj (Except.ok.inj h)
    exact Or.inl ⟨rfl, rfl⟩

/-- A harmless run stays in its chunk. -/
lemma Run.inv {n : ℕ} {q : QueueT} {l : List QMsg} (h : Run Harmless n q l) : Inv q l := by
  induction h with
  | new h => exact inv_new h
  | push _ hx hlen hp h ih =>
      rcases ih.push_cases hx hlen hp h with ⟨hr, -⟩ | ⟨-, hi⟩
      · exact absurd hr (by decide)
      · exact hi
  | full _ hx hlen hp h ih =>
      rcases ih.push_cases hx hlen hp h with ⟨-, rfl⟩ | ⟨hr, -⟩
      · exact ih
      · exact absurd hr (by decide)
  | @pop q q' l _ hp h ih =>
      cases l with
      | nil =>
          rw [ih.fifo.pop_empty rfl] at h
          obtain rfl := Except.ok.inj h
          exact ih
      | cons x xs =>
          obtain ⟨q₁, h₁, hi₁⟩ := ih.pop (hp x xs rfl)
          rw [h₁] at h
          obtain rfl := Except.ok.inj h
          exact hi₁

/-- **When `queue_t` is a FIFO.**  In every run whose calls are all harmless, `front()` is the
oldest message not yet popped, `pop()` leaves an empty queue alone and `count()` counts the
messages; and the next harmless call returns. -/
theorem fifo_of_run {n : ℕ} {q : QueueT} {l : List QMsg} (h : Run Harmless n q l) :
    Fifo q l ∧
    (∀ junk x, x.data ≠ [] → x.data.length < 2 ^ 31 → Harmless q l (.push x) →
      ∃ q' r, q.push junk x.data.length x.type (some x.data) = .ok (q', r)) ∧
    (Harmless q l .pop → ∃ q', q.pop = .ok q') := by
  have hi := h.inv
  refine ⟨hi.fifo, ?_, ?_⟩
  · intro junk x hx hlen hp
    by_cases ht : totalLen x.data.length ≤ capacityLimit
    · obtain ⟨q₁, h₁, -⟩ := hi.push junk ⟨hx, ht, hlen⟩ (hp ht)
      exact ⟨q₁, _, h₁⟩
    · exact ⟨q, _, push_refused (List.length_pos_of_ne_nil hx) (not_le.mp ht)⟩
  · intro hp
    cases l with
    | nil => exact ⟨q, hi.fifo.pop_empty rfl⟩
    | cons x xs =>
        obtain ⟨q₁, h₁, -⟩ := hi.pop (hp x xs rfl)
        exact ⟨q₁, h₁⟩

/-- An empty queue with one chunk of `n` bytes that held zeros. -/
def someQueue (n : ℕ) : QueueT :=
  { chunks := fun _ => newChunk (fun _ => 0) n, nchunks := 1, eachCapacity := n, chunkSpare := none,
    chunkBegin := 0, posBegin := 0, chunkBack := none, posBack := 0, chunkEnd := 0, posEnd := 0,
    nelems := 0 }

/-- Two messages in a chunk of 100 bytes, the first popped: the second is in front. -/
theorem fifo_of_run_two : ∃ q, Run Harmless 100 q [⟨6, [5, 6, 7, 8]⟩] ∧
    q.front = ⟨4, 6, [5, 6, 7, 8]⟩ := by
  have h₀ : Run Harmless 100 (someQueue 100) [] :=
    .new (show QueueT.new (fun _ => 0) 100 = .ok _ from rfl)
  have h₁ : Run Harmless 100 _ [⟨5, [1, 2, 3, 4]⟩] :=
    .push h₀ (by decide) (by decide) (fun _ => Or.inl (by decide))
      (show (someQueue 100).push (fun _ => 0) _ _ _ = .ok (_, _) from rfl)
  have h₂ : Run Harmless 100 _ [⟨5, [1, 2, 3, 4]⟩, ⟨6, [5, 6, 7, 8]⟩] :=
    .push h₁ (by decide) (by decide) (fun _ => Or.inl (by decide))
      (show QueueT.push _ (fun _ => 0) _ _ _ = .ok (_, _) from rfl)
  have h₃ : Run Harmless 100 _ [⟨6, [5, 6, 7, 8]⟩] :=
    .pop h₂ (fun x xs hl => Or.inl (by obtain ⟨rfl, rfl⟩ := List.cons.inj hl; decide))
      (show QueueT.pop _ = .ok _ from rfl)
  exact ⟨_, h₃, (fifo_of_run h₃).1.front _ _ rfl⟩

/-- **Both defects.**  In a chunk of 20 bytes the second message is written over the first; in a
chunk of 100 bytes the message behind a one-byte message is not found after it has been popped. -/
theorem fifo_fails :
    (∃ q, Run (fun _ _ _ => True) 20 q [⟨5, [1, 2, 3, 4]⟩, ⟨6, [5, 6, 7, 8]⟩] ∧
      q.front = ⟨4, 6, [5, 6, 7, 8]⟩ ∧
      ¬ Fifo q [⟨5, [1, 2, 3, 4]⟩, ⟨6, [5, 6, 7, 8]⟩]) ∧
    (∃ q, Run (fun _ _ _ => True) 100 q [⟨6, [5, 6, 7, 8]⟩] ∧ q.front.length = 4 * 2 ^ 24 ∧
      ¬ Fifo q [⟨6, [5, 6, 7, 8]⟩]) := by
  constructor
  · have h₀ : Run (fun _ _ _ => True) 20 (someQueue 20) [] :=
      .new (show QueueT.new (fun _ => 0) 20 = .ok _ from rfl)
    have h₁ : Run (fun _ _ _ => True) 20 _ [⟨5, [1, 2, 3, 4]⟩] :=
      .push h₀ (by decide) (by decide) trivial
        (show (someQueue 20).push (fun _ => 0) _ _ _ = .ok (_, _) from rfl)
    have h₂ : Run (fun _ _ _ => True) 20 _ [⟨5, [1, 2, 3, 4]⟩, ⟨6, [5, 6, 7, 8]⟩] :=
      .push h₁ (by decide) (by decide) trivial
        (show QueueT.push _ (fun _ => 0) _ _ _ = .ok (_, _) from rfl)
    refine ⟨_, h₂, by decide, fun hf => ?_⟩
    exact absurd (hf.front _ _ rfl) (by decide)
  · have h₀ : Run (fun _ _ _ => True) 100 (someQueue 100) [] :=
      .new (show QueueT.new (fun _ => 0) 100 = .ok _ from rfl)
    have h₁ : Run (fun _ _ _ => True) 100 _ [⟨5, [1]⟩] :=
      .push h₀ (by decide) (by decide) trivial
        (show (someQueue 100).push (fun _ => 0) _ _ _ = .ok (_, _) from rfl)
    have h₂ : Run (fun _ _ _ => True) 100 _ [⟨5, [1]⟩, ⟨6, [5, 6, 7, 8]⟩] :=
      .push h₁ (by decide) (by decide) trivial
        (show QueueT.push _ (fun _ => 0) _ _ _ = .ok (_, _) from rfl)
    have h₃ : Run (fun _ _ _ => True) 100 _ [⟨6, [5, 6, 7, 8]⟩] :=
      .pop h₂ trivial (show QueueT.pop _ = .ok _ from rfl)
    refine ⟨_, h₃, by decide, fun hf => ?_⟩
    exact absurd (congrArg VarMsg.length (hf.front _ _ rfl)) (by decide)

end QueueT

end Axon
