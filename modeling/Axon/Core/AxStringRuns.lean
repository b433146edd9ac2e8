import Axon.Core.AxStringLaid

/-!
# Families of `string_t`

Any number of objects, and any sequence of constructions, copies, assignments and clears on them.

* **`Inv`** : every object is in the representation its length asks for.
* **`Sets`** : a call set one object, in that representation, and left the others alone.
* **`Reachable`** : the objects after any sequence of calls, beside their contents.
* **`behaves_as_content`** : every object behaves as its content.
-/

namespace Axon

open Library

namespace Strings

variable {ι : Type}

/-! ## Objects and contents -/

/-- Every constructed object shows its content, in a block of its own if it has one. -/
structure Inv (m : Strings ι) (A : Contents ι) : Prop where
  holds : ∀ i s, A i = some s → m.Holds i s.1
  apart : ∀ i j s t, A i = some s → A j = some t → ¬ m.IsSmall i → ¬ m.IsSmall j →
    m.dataAddr i = m.dataAddr j → i = j

/-- A call has set the object `i`, and used the blocks `l` for it. -/
structure Sets (A : Contents ι) (m m' : Strings ι) (i : ι) (l : List ℕ) (v : Option CString) :
    Prop where
  touches : Touches m m' i l
  others : ∀ j t, j ≠ i → A j = some t → ¬ m.IsSmall j → m.dataAddr j ∉ l
  new : ∀ s, v = some s → m'.Holds i s.1 ∧ (¬ m'.IsSmall i → m'.dataAddr i ∈ l)

variable [DecidableEq ι] {A : Contents ι} {m m' : Strings ι} {i : ι} {os : Malloc} {l : List ℕ}
  {v : Option CString}

omit [DecidableEq ι] in
lemma Inv.laid (hinv : Inv m A) : Laid m A :=
  ⟨fun i s hs => (hinv.holds i s hs).shows, hinv.apart⟩

omit [DecidableEq ι] in
lemma Sets.lays (h : Sets A m m' i l v) : Lays A m m' i l v :=
  ⟨h.touches, h.others, fun s hs => ⟨(h.new s hs).1.shows, (h.new s hs).2⟩⟩

omit [DecidableEq ι] in
lemma Lays.sets (h : Lays A m m' i l v) (hfits : Fits m' i v) : Sets A m m' i l v :=
  ⟨h.touches, h.others, fun s hs =>
    ⟨holds_iff.mpr ⟨(h.new s hs).1, hfits s hs⟩, (h.new s hs).2⟩⟩

lemma Inv.sets (hinv : Inv m A) (h : Sets A m m' i l v) : Inv m' (Function.update A i v) where
  holds j t ht := by
    rcases eq_or_ne j i with rfl | hj
    · rw [Function.update_self] at ht
      exact (h.new t ht).1
    · rw [Function.update_of_ne hj] at ht
      exact h.touches.holds hj (h.others j t hj ht) (hinv.holds j t ht)
  apart := (hinv.laid.lays h.lays).apart

/-- **A call** returns, and sets its object. -/
lemma Inv.call {u : Update ι} (hinv : Inv m A) (hu : u.Allowed A) (hos : Met os (u.mallocHeap m)) :
    ∃ m' l, u.run m os = .ok m' ∧ Sets A m m' u.target l (u.value A) := by
  obtain ⟨m', l, hrun, hlays, hfits⟩ := hinv.laid.call hu hos
  exact ⟨m', l, hrun, hlays.sets (hfits fun j t ht => (holds_iff.mp (hinv.holds j t ht)).2)⟩

/-! ## Runs -/

/-- The objects after a sequence of calls, beside what they stand for.  At first none is
constructed, and the bytes where they will be are arbitrary. -/
inductive Reachable : Strings ι → Contents ι → Prop where
  | start (m : Strings ι) : Reachable m fun _ => none
  | call {m m' : Strings ι} {A : Contents ι} {u : Update ι} {os : Malloc} :
      Reachable m A → u.Allowed A → Met os (u.mallocHeap m) → u.run m os = .ok m' →
      Reachable m' (u.effect A)

omit [DecidableEq ι] in
lemma Inv.start (m : Strings ι) : Inv m fun _ => none := ⟨nofun, nofun⟩

/-- **Every run** keeps the invariant. -/
lemma Reachable.inv (h : Reachable m A) : Inv m A := by
  induction h with
  | start m => exact .start m
  | call _ hu hos hrun ih =>
      obtain ⟨m', l, hok, hsets⟩ := ih.call hu hos
      obtain rfl := Except.ok.inj (hok.symm.trans hrun)
      exact ih.sets hsets

/-- What can be seen of the objects is their content. -/
structure Behaves (m : Strings ι) (A : Contents ι) : Prop where
  cStr : ∀ i s, A i = some s → ∃ rest, m.storage (m.cStr i) = .ok (s.1 ++ 0 :: rest)
  len : ∀ i s, A i = some s → m.len i = s.1.length ∧ m.strlen (m.cStr i) = .ok (m.len i)
  inline : ∀ i s, A i = some s → (m.IsSmall i ↔ s.1.length ≤ 22)
  equal : ∀ i j s t, A i = some s → A j = some t → m.equal i j = .ok (decide (s = t))
  equalCstr : ∀ i s (t : CString), A i = some s →
    m.equalCstr i (.text t) = .ok (decide (s = t))

omit [DecidableEq ι] in
lemma Inv.behaves (hinv : Inv m A) : Behaves m A where
  cStr i s hs := (hinv.laid.shows i s hs).terminated
  len i s hs := by
    have hshows := hinv.laid.shows i s hs
    refine ⟨hshows.len_eq, ?_⟩
    rw [hshows.terminated.strlen s.2, hshows.len_eq]
  inline i s hs := (hinv.holds i s hs).isSmall_iff
  equal i j s t hs ht := by
    have ht' := (hinv.laid.shows j t ht).terminated
    refine ((hinv.laid.shows i s hs).equalCstr_eq s.2 ht' t.2).trans ?_
    simp only [Subtype.ext_iff]
  equalCstr i s t hs := by
    refine ((hinv.laid.shows i s hs).equalCstr_eq s.2 (.text m t) t.2).trans ?_
    simp only [Subtype.ext_iff]

/-- **A `string_t` behaves as its content**, whatever its representation: in every run of
constructions, copies, assignments and clears with texts of less than `2^32 - 1` bytes.  Every such
call returns, and changes no other object. -/
theorem behaves_as_content (h : Reachable m A) :
    Behaves m A ∧ ∀ (u : Update ι) (os : Malloc), u.Allowed A → Met os (u.mallocHeap m) →
      ∃ m', u.run m os = .ok m' ∧ ∀ j t, j ≠ u.target → A j = some t →
        m'.small j = m.small j ∧ m'.storage (m'.cStr j) = m.storage (m.cStr j) := by
  refine ⟨h.inv.behaves, fun u os hu hos => ?_⟩
  obtain ⟨m', l, hok, hsets⟩ := h.inv.call hu hos
  exact ⟨m', hok, fun j t hj ht => hsets.lays.frame hj ht⟩

/-- A string constructed from a text of 30 bytes. -/
theorem behaves_as_content_construct : ∃ (m : Strings Unit) (A : Contents Unit) (s : CString),
    s.1.length = 30 ∧ A () = some s ∧ Reachable m A ∧ Behaves m A := by
  have h₀ : Reachable ⟨fun _ _ => 7, Heap.empty⟩ fun _ : Unit => none := .start _
  have hu : (Update.construct () (.text ⟨List.replicate 30 97, by decide⟩)).Allowed
      fun _ : Unit => none := ⟨rfl, show List.length _ + 1 < 2 ^ 32 by decide⟩
  have hos : Met ⟨100, fun _ => 7⟩ (Heap.empty : Heap (List UInt8)) :=
    ⟨by decide, by decide, by decide⟩
  obtain ⟨m, hrun, -⟩ := (behaves_as_content h₀).2 _ _ hu hos
  have h₁ := h₀.call hu hos hrun
  exact ⟨m, _, _, rfl, rfl, h₁, (behaves_as_content h₁).1⟩

/-! ## Lengths beyond `uint32_t` -/

/-- The constructor from a text whose length is a multiple of `2^32`. -/
lemma construct_wraps (os : Malloc) {s : CString} (hs : u32 s.1.length = 0) :
    ∃ m', m.construct os i (.text s) = .ok m' ∧ m'.Shows i [] := by
  rw [construct_wrapped os hs]
  obtain ⟨m', hrun, hbuilt⟩ := constructText_short (m := m.memset i) (.text _ emptyText)
    emptyText.2 (Nat.zero_le _) (fun k => memset_zero) os.addr
  exact ⟨m', hrun, hbuilt.holds.shows⟩

/-- **A text of `2^32` bytes is lost**: `strlen` is stored in a `uint32_t`, and the constructed
string is empty. -/
theorem not_content_of_long : ∃ (s : CString) (m m' : Strings Unit) (os : Malloc),
    Met os m.heap ∧ (Update.construct () (.text s)).run m os = .ok m' ∧
      s.1.length = 2 ^ 32 ∧ m'.chars (m'.cStr ()) = .ok [] ∧ m'.len () = 0 := by
  have hmem : (0 : UInt8) ∉ List.replicate (2 ^ 32) (97 : UInt8) :=
    fun h => absurd (List.eq_of_mem_replicate h) (by decide)
  obtain ⟨m', hrun, hshows⟩ := construct_wraps (m := ⟨fun _ _ => 0, Heap.empty⟩) (i := ())
    ⟨100, fun _ => 0⟩ (s := ⟨List.replicate (2 ^ 32) 97, hmem⟩)
    (by rw [List.length_replicate, u32, Nat.mod_self])
  exact ⟨_, _, m', _, ⟨by decide, by decide, by decide⟩, hrun, List.length_replicate,
    hshows.terminated.chars List.not_mem_nil, hshows.len_eq⟩

end Strings

end Axon
