import Axon.Core.QueueSteps
import Axon.Library.LinkedList

/-!
# The chunks of a `queue_t`

`ax_queue.cc`: the chunks in use are chained from `chunk_begin_` to `chunk_end_`, the others from
`chunk_spare_`, and `~queue_t` deletes the two chains.

A message that does not find room behind the last one gets a new chunk, which is chained behind
`chunk_end_`; but `chunk_end_` stays.  The chunk is on neither chain, and the next such message
overwrites the pointer to it.

* **`NoChunkLost`** : every chunk created is on one of the two chains, which do not meet.
* **`destroy`** : `~queue_t`, as the chunks it deletes.
* **`Calls`** : all runs, with the number of messages that did not find room.
* **`no_chunk_lost_iff`** : no chunk is lost exactly when there was no such message.
-/

namespace Axon

open Library

namespace QueueT

variable {q q' : QueueT} {n k : ℕ} {live spare : List ℕ}

/-! ## `~queue_t` -/

/-- The first loop of `~queue_t`, at the chunk `c`; `gone` are the chunks deleted so far. -/
def deleteLive (q : QueueT) : ℕ → List ℕ → ℕ → Except Fault (List ℕ)
  | 0, _, _ => .error .hang
  | fuel + 1, gone, c =>
      if c ∈ gone then .error .badAccess
      else if c = q.chunkEnd then .ok (gone ++ [c])
      else
        match (q.chunks c).next with
        | none => .error .badAccess
        | some b => q.deleteLive fuel (gone ++ [c]) b

/-- The second loop. -/
def deleteSpare (q : QueueT) : ℕ → List ℕ → Option ℕ → Except Fault (List ℕ)
  | 0, _, _ => .error .hang
  | _ + 1, gone, none => .ok gone
  | fuel + 1, gone, some c =>
      if c ∈ gone then .error .badAccess
      else q.deleteSpare fuel (gone ++ [c]) (q.chunks c).next

/-- `queue_t::~queue_t`: the chunks deleted, in order.  A run of a loop that deletes more chunks
than were created meets one of them again. -/
def destroy (q : QueueT) : Except Fault (List ℕ) := do
  let gone ← q.deleteLive (q.nchunks + 1) [] q.chunkBegin
  q.deleteSpare (q.nchunks + 1) gone q.chunkSpare

/-- `~queue_t` deletes every chunk exactly once. -/
def DeletesEachOnce (q : QueueT) : Prop :=
  ∃ gone, q.destroy = .ok gone ∧ gone.Nodup ∧ ∀ c, c ∈ gone ↔ c < q.nchunks

/-! ## The two chains -/

/-- `next` of a chunk. -/
def next (q : QueueT) (c : ℕ) : Option ℕ := (q.chunks c).next

/-- Every chunk created is on the chain from `chunk_begin_` to `chunk_end_` or on the chain from
`chunk_spare_`.  Both end, and they do not meet. -/
structure ChunksKept (q : QueueT) (live spare : List ℕ) : Prop where
  path : Path q.next q.chunkEnd q.chunkBegin live
  chain : Chain q.next q.chunkSpare spare
  nodup : (live ++ spare).Nodup
  all : ∀ c, c ∈ live ++ spare ↔ c < q.nchunks

/-- No chunk is lost. -/
def NoChunkLost (q : QueueT) : Prop := ∃ live spare, ChunksKept q live spare

lemma deleteLive_eq {fuel c : ℕ} {gone : List ℕ} (h : Path q.next q.chunkEnd c live)
    (hnd : (gone ++ live).Nodup) (hfuel : live.length ≤ fuel) :
    q.deleteLive fuel gone c = .ok (gone ++ live) := by
  induction h generalizing fuel gone with
  | stop =>
      obtain ⟨fuel, rfl⟩ := Nat.exists_eq_add_one_of_ne_zero (Nat.ne_of_gt hfuel)
      have hout : q.chunkEnd ∉ gone := fun hmem =>
        List.disjoint_of_nodup_append hnd hmem List.mem_cons_self
      rw [deleteLive, if_neg hout, if_pos rfl]
  | @step c b l hne hnext h ih =>
      obtain ⟨fuel, rfl⟩ := Nat.exists_eq_add_one_of_ne_zero
        (Nat.ne_of_gt (Nat.lt_of_lt_of_le (Nat.succ_pos _) hfuel))
      have hout : c ∉ gone := fun hmem =>
        List.disjoint_of_nodup_append hnd hmem List.mem_cons_self
      have hnext' : (q.chunks c).next = some b := hnext
      rw [deleteLive, if_neg hout, if_neg hne, hnext']
      dsimp only
      rw [ih (by simpa using hnd) (Nat.le_of_succ_le_succ hfuel), List.append_assoc]
      rfl

lemma deleteSpare_eq {fuel : ℕ} {head : Option ℕ} {gone : List ℕ} (h : Chain q.next head spare)
    (hnd : (gone ++ spare).Nodup) (hfuel : spare.length < fuel) :
    q.deleteSpare fuel gone head = .ok (gone ++ spare) := by
  induction spare generalizing fuel head gone with
  | nil =>
      obtain ⟨fuel, rfl⟩ := Nat.exists_eq_add_one_of_ne_zero (Nat.ne_of_gt hfuel)
      obtain rfl : head = none := h
      rw [deleteSpare, List.append_nil]
  | cons c l ih =>
      obtain ⟨fuel, rfl⟩ := Nat.exists_eq_add_one_of_ne_zero
        (Nat.ne_of_gt (Nat.lt_of_le_of_lt (Nat.zero_le _) hfuel))
      obtain ⟨rfl, h⟩ := h
      have hout : c ∉ gone := fun hmem =>
        List.disjoint_of_nodup_append hnd hmem List.mem_cons_self
      rw [deleteSpare, if_neg hout]
      show q.deleteSpare fuel (gone ++ [c]) (q.next c) = _
      rw [ih h (by simpa using hnd) (Nat.lt_of_succ_lt_succ hfuel), List.append_assoc]
      rfl

/-- **The destructor deletes the two chains.** -/
lemma ChunksKept.destroy_eq (h : ChunksKept q live spare) : q.destroy = .ok (live ++ spare) := by
  have hlen : (live ++ spare).length ≤ q.nchunks := by
    have hsub : live ++ spare ⊆ List.range q.nchunks :=
      fun c hc => List.mem_range.mpr ((h.all c).mp hc)
    calc (live ++ spare).length ≤ (List.range q.nchunks).length :=
          (h.nodup.subperm hsub).length_le
      _ = q.nchunks := List.length_range
  rw [List.length_append] at hlen
  have hlive : q.deleteLive (q.nchunks + 1) [] q.chunkBegin = .ok ([] ++ live) :=
    deleteLive_eq h.path (List.Nodup.of_append_left h.nodup) (by omega)
  have hspare : q.deleteSpare (q.nchunks + 1) live q.chunkSpare = .ok (live ++ spare) :=
    deleteSpare_eq h.chain h.nodup (by omega)
  rw [destroy, hlive, List.nil_append, ok_bind, hspare]

lemma NoChunkLost.deletesEachOnce (h : NoChunkLost q) : DeletesEachOnce q := by
  obtain ⟨live, spare, h⟩ := h
  exact ⟨live ++ spare, h.destroy_eq, h.nodup, h.all⟩

/-- In a queue that is in one chunk, only that chunk is on a chain. -/
lemma Single.noChunkLost_iff (hs : Single q) : NoChunkLost q ↔ q.nchunks = 1 := by
  constructor
  · rintro ⟨live, spare, h⟩
    have hlive : live = [q.chunkBegin] := by
      have hpath := h.path
      rw [hs.one_chunk] at hpath
      exact hpath.eq_singleton
    have hspare : spare = [] := by
      have hchain := h.chain
      rw [hs.spare] at hchain
      exact hchain.eq_nil
    have hall := h.all
    rw [hlive, hspare] at hall
    have hzero := (hall 0).mpr (Nat.lt_of_le_of_lt (Nat.zero_le _) hs.begin_lt)
    have hlast := (hall (q.nchunks - 1)).mpr (by have := hs.begin_lt; omega)
    simp only [List.append_nil, List.mem_singleton] at hzero hlast
    have := hs.begin_lt
    omega
  · intro hone
    have hlt := hs.begin_lt
    refine ⟨[q.chunkBegin], [], ⟨?_, ?_, by simp, fun c => ?_⟩⟩
    · rw [hs.one_chunk]
      exact .stop
    · rw [hs.spare]
      rfl
    · simp only [List.append_nil, List.mem_singleton]
      omega

/-! ## Every run -/

/-- The states a queue of initial chunk size `n` reaches by any calls, each with the number of
messages that were not refused and did not find room behind the last one. -/
inductive Calls (n : ℕ) : QueueT → ℕ → Prop where
  | new {junk : ℕ → UInt8} {q : QueueT} (h : QueueT.new junk n = .ok q) : Calls n q 0
  | push {junk : ℕ → UInt8} {q q' : QueueT} {k len : ℕ} {type : Int32}
      {vdata : Option (List UInt8)} {r : ℤ} (hr : Calls n q k) (hlen : 0 < len)
      (h : q.push junk len type vdata = .ok (q', r)) :
      Calls n q' (k + if capacityLimit < totalLen len ∨ q.HasRoom len then 0 else 1)
  | pop {q q' : QueueT} {k : ℕ} (hr : Calls n q k) (h : q.pop = .ok q') : Calls n q' k

/-- A chunk is created for every message that did not find room. -/
lemma Single.nchunks_push {junk : ℕ → UInt8} {len : ℕ} {type : Int32}
    {vdata : Option (List UInt8)} {r : ℤ} (hs : Single q) (hlen : 0 < len)
    (h : q.push junk len type vdata = .ok (q', r)) : q'.nchunks =
      q.nchunks + if capacityLimit < totalLen len ∨ q.HasRoom len then 0 else 1 := by
  obtain ⟨-, rfl, hfull⟩ | ⟨-, hfit, -, rfl⟩ := push_cases hlen h
  · rw [if_pos (.inl hfull), Nat.add_zero]
  · by_cases hroom : q.HasRoom len
    · rw [if_pos (.inr hroom), chosen, if_pos hroom]
      rfl
    · have hnot : ¬ (capacityLimit < totalLen len ∨ q.HasRoom len) := by
        rintro (hfull | hroom')
        · exact absurd hfit (not_le.mpr hfull)
        · exact hroom hroom'
      rw [if_neg hnot, chosen, if_neg hroom]
      exact (nextChunk_chained _ _ hs.spare).nchunks

lemma Single.nchunks_pop (hs : Single q) (h : q.pop = .ok q') : q'.nchunks = q.nchunks := by
  obtain ⟨-, rfl⟩ | ⟨-, -, rfl⟩ | ⟨-, -, rfl⟩ := hs.pop_cases h
  · rfl
  · rfl
  · rfl

/-- **Every run** stays in the first chunk, and has one chunk more for each message without room. -/
lemma Calls.single (h : Calls n q k) : Single q ∧ q.nchunks = 1 + k := by
  induction h with
  | new h =>
      refine ⟨Single.new h, ?_⟩
      obtain ⟨-, -, h⟩ := bind_eq_ok h
      obtain rfl := Except.ok.inj h
      rfl
  | push _ hlen h ih =>
      refine ⟨ih.1.push hlen h, ?_⟩
      rw [ih.1.nchunks_push hlen h, ih.2, Nat.add_assoc]
  | pop _ h ih =>
      refine ⟨ih.1.pop h, ?_⟩
      rw [ih.1.nchunks_pop h, ih.2]

/-- **When no chunk is lost**: in every state of every run, every chunk is on one of the two chains,
the chains end and do not meet, and `~queue_t` deletes every chunk exactly once, if and only if
every message so far was refused or found room behind the last one. -/
theorem no_chunk_lost_iff (h : Calls n q k) : NoChunkLost q ∧ DeletesEachOnce q ↔ k = 0 := by
  obtain ⟨hs, hchunks⟩ := h.single
  constructor
  · rintro ⟨hkept, -⟩
    have hone := hs.noChunkLost_iff.mp hkept
    omega
  · rintro rfl
    have hkept : NoChunkLost q := hs.noChunkLost_iff.mpr hchunks
    exact ⟨hkept, hkept.deletesEachOnce⟩

/-- One message in a chunk of 20 bytes. -/
theorem no_chunk_lost_one : ∃ q, Calls 20 q 0 ∧ NoChunkLost q ∧ DeletesEachOnce q := by
  have h₀ : Calls 20 _ 0 := .new (show QueueT.new (fun _ => 0) 20 = .ok _ from rfl)
  have h₁ : Calls 20 _ 0 := .push h₀ (Nat.succ_pos 3)
    (show QueueT.push _ (fun _ => 0) (4 : ℕ) 5 (some [1, 2, 3, 4]) = .ok (_, _) from rfl)
  exact ⟨_, h₁, (no_chunk_lost_iff h₁).mpr rfl⟩

/-- **A second message is lost memory**: it gets a chunk that `~queue_t` does not delete. -/
theorem chunk_lost : ∃ q k, Calls 20 q k ∧ q.nchunks = 2 ∧ q.destroy = .ok [0] ∧
    ¬ DeletesEachOnce q := by
  have h₀ : Calls 20 _ 0 := .new (show QueueT.new (fun _ => 0) 20 = .ok _ from rfl)
  have h₁ : Calls 20 _ _ := .push h₀ (Nat.succ_pos 3)
    (show QueueT.push _ (fun _ => 0) (4 : ℕ) 5 (some [1, 2, 3, 4]) = .ok (_, _) from rfl)
  have h₂ : Calls 20 _ _ := .push h₁ (Nat.succ_pos 3)
    (show QueueT.push _ (fun _ => 0) (4 : ℕ) 6 (some [5, 6, 7, 8]) = .ok (_, _) from rfl)
  refine ⟨_, _, h₂, rfl, rfl, ?_⟩
  rintro ⟨gone, hdestroy, -, hall⟩
  obtain rfl : [0] = gone := Except.ok.inj hdestroy
  exact absurd ((hall 1).mpr (Nat.lt_succ_self 1)) (by decide)

end QueueT

end Axon
