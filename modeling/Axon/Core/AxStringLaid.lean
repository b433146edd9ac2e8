import Axon.Core.AxStringContent

/-!
# Objects with blocks of their own

Any number of `string_t` objects, each with a content, and what the constructions, copies,
assignments and clears do to all of them.

* **`Contents`** : what the objects stand for: a text each, or nothing while one is not constructed.
* **`Update.value`** : what a call makes of its object.
* **`Laid`** : all constructed objects show their content, and no two of them share a block.
* **`Lays`** : a call set one object and left the others alone.
* **`Laid.call`** : every call returns, and sets its object.
-/

namespace Axon

open Library

namespace Strings

/-- What the objects stand for; `none` while an object is not constructed. -/
abbrev Contents (ι : Type) := ι → Option CString

/-- The empty text. -/
def emptyText : CString := ⟨[], List.not_mem_nil⟩

variable {ι : Type}

/-! ## Calls and contents -/

/-- The text of an argument. -/
def Source.content (A : Contents ι) : Source ι → CString
  | .null => emptyText
  | .text s => s
  | .cStr j => (A j).getD emptyText

/-- An argument a caller may pass: `NULL`, the text of a constructed object, or a text of his own,
whose length and `NUL` fit a `uint32_t`. -/
def Source.Ok (A : Contents ι) : Source ι → Prop
  | .null => True
  | .text s => s.1.length + 1 < 2 ^ 32
  | .cStr j => A j ≠ none

/-- Calls on constructed objects, between distinct objects. -/
def Update.Allowed (A : Contents ι) : Update ι → Prop
  | .construct i src => A i = none ∧ src.Ok A
  | .copyConstruct i j => A i = none ∧ A j ≠ none
  | .copyAssign i j => A i ≠ none ∧ A j ≠ none ∧ j ≠ i
  | .assign i src => A i ≠ none ∧ src.Ok A ∧ src ≠ .null ∧ src ≠ .cStr i
  | .clear i => A i ≠ none
  | .destroy i => A i ≠ none

/-- What a call makes of its object. -/
def Update.value (A : Contents ι) : Update ι → Option CString
  | .construct _ src | .assign _ src => some (src.content A)
  | .copyConstruct _ j | .copyAssign _ j => A j
  | .clear _ => some emptyText
  | .destroy _ => none

/-- What the objects stand for after a call. -/
def Update.effect [DecidableEq ι] (A : Contents ι) (u : Update ι) : Contents ι :=
  Function.update A u.target (u.value A)

/-- The heap on which a call asks for memory: `operator=` and `assign` have cleared the object
before. -/
def Update.mallocHeap [DecidableEq ι] (m : Strings ι) : Update ι → Heap (List UInt8)
  | .copyAssign i _ | .assign i _ =>
      match m.clear i with
      | .ok m => m.heap
      | .error _ => m.heap
  | _ => m.heap

/-! ## Objects and contents -/

/-- Every constructed object shows its content, in a block of its own if it has one. -/
structure Laid (m : Strings ι) (A : Contents ι) : Prop where
  shows : ∀ i s, A i = some s → m.Shows i s.1
  apart : ∀ i j s t, A i = some s → A j = some t → ¬ m.IsSmall i → ¬ m.IsSmall j →
    m.dataAddr i = m.dataAddr j → i = j

/-- A call has set the object `i`, and used the blocks `l` for it. -/
structure Lays (A : Contents ι) (m m' : Strings ι) (i : ι) (l : List ℕ) (v : Option CString) :
    Prop where
  touches : Touches m m' i l
  others : ∀ j t, j ≠ i → A j = some t → ¬ m.IsSmall j → m.dataAddr j ∉ l
  new : ∀ s, v = some s → m'.Shows i s.1 ∧ (¬ m'.IsSmall i → m'.dataAddr i ∈ l)

/-- The last byte of an object is the one for the length of its content. -/
def Fits (m : Strings ι) (i : ι) (v : Option CString) : Prop :=
  ∀ s, v = some s → m.small i lastChar = lenTag s.1.length

variable [DecidableEq ι] {A : Contents ι} {m m' m'' : Strings ι} {i j : ι} {os : Malloc}
  {l l' : List ℕ} {v v' : Option CString}

omit [DecidableEq ι] in
lemma cStr_apart (hj : j ≠ i) (hl : ¬ m.IsSmall j → m.dataAddr j ∉ l) : Apart (m.cStr j) i l := by
  by_cases hsmall : m.IsSmall j
  · rw [cStr, if_pos hsmall]
    exact hj
  · rcases eq_or_ne (m.dataAddr j) 0 with hnull | hnull
    · rw [cStr, if_neg hsmall, data, if_pos hnull]
      trivial
    · rw [cStr, if_neg hsmall, data, if_neg hnull]
      exact hl hsmall

omit [DecidableEq ι] in
/-- **The others are left alone.** -/
lemma Lays.frame {t : CString} (h : Lays A m m' i l v) (hj : j ≠ i) (ht : A j = some t) :
    m'.small j = m.small j ∧ m'.storage (m'.cStr j) = m.storage (m.cStr j) := by
  refine ⟨h.touches.small j hj, ?_⟩
  have hapart : Apart (m.cStr j) i l := cStr_apart hj (h.others j t hj ht)
  rw [h.touches.cStr hj, h.touches.storage hapart]

lemma Laid.lays (hlaid : Laid m A) (h : Lays A m m' i l v) :
    Laid m' (Function.update A i v) where
  shows j t ht := by
    rcases eq_or_ne j i with rfl | hj
    · rw [Function.update_self] at ht
      exact (h.new t ht).1
    · rw [Function.update_of_ne hj] at ht
      exact h.touches.shows hj (h.others j t hj ht) (hlaid.shows j t ht)
  apart j k s t hs ht hjsmall hksmall haddr := by
    -- a block of `i` is among `l`, a block of another object is not
    rcases eq_or_ne j i with rfl | hj
    · rcases eq_or_ne k j with rfl | hk
      · rfl
      · rw [Function.update_self] at hs
        rw [Function.update_of_ne hk] at ht
        rw [h.touches.isSmall_iff hk] at hksmall
        rw [h.touches.dataAddr hk] at haddr
        have hmem := (h.new s hs).2 hjsmall
        rw [haddr] at hmem
        exact absurd hmem (h.others k t hk ht hksmall)
    · rw [Function.update_of_ne hj] at hs
      rw [h.touches.isSmall_iff hj] at hjsmall
      rw [h.touches.dataAddr hj] at haddr
      rcases eq_or_ne k i with rfl | hk
      · rw [Function.update_self] at ht
        have hmem := (h.new t ht).2 hksmall
        rw [← haddr] at hmem
        exact absurd hmem (h.others j s hj hs hjsmall)
      · rw [Function.update_of_ne hk] at ht
        rw [h.touches.isSmall_iff hk] at hksmall
        rw [h.touches.dataAddr hk] at haddr
        exact hlaid.apart j k s t hs ht hjsmall hksmall haddr

lemma Lays.trans (h : Lays A m m' i l v) (h' : Lays (Function.update A i v) m' m'' i l' v') :
    Lays A m m'' i (l ++ l') v' where
  touches := h.touches.trans h'.touches
  others j t hj ht hsmall := by
    rw [List.mem_append, not_or]
    refine ⟨h.others j t hj ht hsmall, ?_⟩
    have hout := h'.others j t hj (by rwa [Function.update_of_ne hj])
    rw [h.touches.isSmall_iff hj, h.touches.dataAddr hj] at hout
    exact hout hsmall
  new s hs := by
    obtain ⟨hshows, hdata⟩ := h'.new s hs
    exact ⟨hshows, fun hsmall => List.mem_append_right _ (hdata hsmall)⟩

omit [DecidableEq ι] in
/-- The block `malloc` returned is no object's. -/
lemma Laid.fresh {t : CString} (hlaid : Laid m A) (hos : Met os m.heap) (ht : A j = some t)
    (hsmall : ¬ m.IsSmall j) : m.dataAddr j ≠ os.addr := fun haddr =>
  hos.fresh (haddr ▸ ((hlaid.shows j t ht).inBlock_of_not_isSmall hsmall).live)

omit [DecidableEq ι] in
lemma Laid.placed {s : CString} (hlaid : Laid m A) (hos : Met os m.heap)
    (h : Placed m m' i os.addr s.1) : Lays A m m' i [os.addr] (some s) where
  touches := h.touches
  others j t _ ht hsmall := fun hmem => hlaid.fresh hos ht hsmall (List.mem_singleton.mp hmem)
  new t ht := by
    obtain rfl := Option.some.inj ht
    exact ⟨h.shows, fun hsmall => List.mem_singleton.mpr (h.data hsmall)⟩

omit [DecidableEq ι] in
lemma Built.fits {a : ℕ} {s : CString} (h : Built m m' i a s.1) : Fits m' i (some s) := by
  intro t ht
  obtain rfl := Option.some.inj ht
  exact (holds_iff.mp h.holds).2

omit [DecidableEq ι] in
/-- The object's own block is no other object's. -/
lemma Laid.not_mem_owned {s t : CString} (hlaid : Laid m A) (hs : A i = some s) (hj : j ≠ i)
    (ht : A j = some t) (hsmall : ¬ m.IsSmall j) : m.dataAddr j ∉ m.owned i := by
  rw [owned]
  split_ifs with hi
  · exact List.not_mem_nil
  · intro hmem
    exact hj (hlaid.apart j i t s ht hs hsmall hi (List.mem_singleton.mp hmem))

omit [DecidableEq ι] in
lemma Laid.destroy {s : CString} (hlaid : Laid m A) (hs : A i = some s) :
    ∃ m', m.destroy i = .ok m' ∧ Lays A m m' i (m.owned i) none := by
  obtain ⟨m', hok, htouch⟩ := destroy_spec (hlaid.shows i s hs)
  exact ⟨m', hok, htouch, fun j t hj ht hsmall => hlaid.not_mem_owned hs hj ht hsmall, nofun⟩

lemma Laid.clear {s : CString} (hlaid : Laid m A) (hs : A i = some s) :
    ∃ m', m.clear i = .ok m' ∧ Lays A m m' i (m.owned i) (some emptyText) ∧
      ∀ k < unionSize, m'.small i k = 0 := by
  obtain ⟨m', hok, htouch, hzero⟩ := clear_spec (hlaid.shows i s hs)
  have hin : m'.Inline i [] := .of_zero hzero
  refine ⟨m', hok, ⟨htouch, fun j t hj ht hsmall => hlaid.not_mem_owned hs hj ht hsmall, ?_⟩,
    hzero⟩
  intro t ht
  obtain rfl := Option.some.inj ht
  exact ⟨.inline hin, fun hsmall => absurd hin.isSmall hsmall⟩

/-! ## Arguments -/

omit [DecidableEq ι] in
/-- **An argument that is not `NULL`** points to its text, which is in no storage of the object
`i`. -/
lemma Laid.source {src : Source ι} (hlaid : Laid m A) (hok : src.Ok A) (hnull : src ≠ .null)
    (hl : ∀ j t, src = .cStr j → A j = some t → j ≠ i ∧ (¬ m.IsSmall j → m.dataAddr j ∉ l)) :
    m.Terminated (src.ptr m) (src.content A).1 ∧ (src.content A).1.length + 1 < 2 ^ 32 ∧
      Apart (src.ptr m) i l := by
  cases src with
  | null => exact absurd rfl hnull
  | text s => exact ⟨.text m s, hok, trivial⟩
  | cStr j =>
      obtain ⟨t, ht⟩ := Option.ne_none_iff_exists'.mp hok
      have hcontent : (Source.cStr j).content A = t := by rw [Source.content, ht, Option.getD_some]
      obtain ⟨hj, hout⟩ := hl j t rfl ht
      rw [hcontent]
      exact ⟨(hlaid.shows j t ht).terminated, (hlaid.shows j t ht).lt, cStr_apart hj hout⟩

/-! ## Calls -/

lemma Laid.construct {src : Source ι} (hlaid : Laid m A) (hi : A i = none) (hok : src.Ok A)
    (hos : Met os m.heap) :
    ∃ m', m.construct os i (src.ptr m) = .ok m' ∧
      Lays A m m' i [os.addr] (some (src.content A)) ∧ Fits m' i (some (src.content A)) := by
  have hbuilt : ∃ m', m.construct os i (src.ptr m) = .ok m' ∧
      Built m m' i os.addr (src.content A).1 := by
    rcases eq_or_ne src .null with rfl | hnull
    · exact construct_null os.addr
    · have hsrc := hlaid.source (i := i) (l := [os.addr]) hok hnull (by
        intro j t _ ht
        refine ⟨fun hij => ?_, fun hsmall hmem => ?_⟩
        · rw [hij, hi] at ht
          exact absurd ht nofun
        · exact hlaid.fresh hos ht hsmall (List.mem_singleton.mp hmem))
      exact construct_spec hsrc.1 (src.content A).2 hsrc.2.1 hos hsrc.2.2
  obtain ⟨m', hrun, h⟩ := hbuilt
  exact ⟨m', hrun, hlaid.placed hos h.placed, h.fits⟩

lemma Laid.copyFrom {t : CString} (hlaid : Laid m A) (hj : j ≠ i) (ht : A j = some t)
    (hos : Met os m.heap) :
    ∃ m', m.copyFrom os i j = .ok m' ∧ Lays A m m' i [os.addr] (some t) ∧
      m'.small i lastChar = m.small j lastChar := by
  obtain ⟨m', hrun, h, hlast⟩ := copyFrom_spec hj (hlaid.shows j t ht) hos
  exact ⟨m', hrun, hlaid.placed hos h, hlast⟩

lemma Laid.copyAssign {s t : CString} (hlaid : Laid m A) (hs : A i = some s) (hj : j ≠ i)
    (ht : A j = some t) (hos : Met os ((Update.copyAssign i j).mallocHeap m)) :
    ∃ m' l, m.copyAssign os i j = .ok m' ∧ Lays A m m' i l (some t) ∧
      m'.small i lastChar = m.small j lastChar := by
  obtain ⟨m₁, hclear, hlays, -⟩ := hlaid.clear hs
  rw [Update.mallocHeap, hclear] at hos
  obtain ⟨m', hrun, hlays', hlast⟩ :=
    (hlaid.lays hlays).copyFrom hj (by rwa [Function.update_of_ne hj]) hos
  refine ⟨m', _, ?_, hlays.trans hlays', ?_⟩
  · rw [Strings.copyAssign, hclear, ok_bind, hrun]
  · rw [hlast, hlays.touches.small j hj]

lemma Laid.assign {s : CString} {src : Source ι} (hlaid : Laid m A) (hs : A i = some s)
    (hok : src.Ok A) (hnull : src ≠ .null) (hown : src ≠ .cStr i)
    (hos : Met os ((Update.assign i src).mallocHeap m)) :
    ∃ m' l, m.assign os i (src.ptr m) = .ok m' ∧ Lays A m m' i l (some (src.content A)) ∧
      Fits m' i (some (src.content A)) := by
  obtain ⟨m₁, hclear, hlays, -⟩ := hlaid.clear hs
  rw [Update.mallocHeap, hclear] at hos
  have hlaid₁ := hlaid.lays hlays
  -- the argument is neither in the block given back nor in the new one
  have hsrc := hlaid.source (i := i) (l := m.owned i ++ [os.addr]) hok hnull (by
    rintro j t rfl ht
    have hj : j ≠ i := fun hij => hown (hij ▸ rfl)
    refine ⟨hj, fun hsmall hmem => ?_⟩
    rcases List.mem_append.mp hmem with hmem | hmem
    · exact hlaid.not_mem_owned hs hj ht hsmall hmem
    · refine hlaid₁.fresh (j := j) (t := t) hos (by rwa [Function.update_of_ne hj]) ?_ ?_
      · rwa [hlays.touches.isSmall_iff hj]
      · rw [hlays.touches.dataAddr hj, List.mem_singleton.mp hmem])
  obtain ⟨hterm, hlt, hapart⟩ := hsrc
  have hterm₁ := hlays.touches.terminated (hapart.mono (by simp)) hterm
  obtain ⟨m', hrun, h⟩ := assign_spec hterm (src.content A).2 hlt hclear hterm₁ hos
    (hapart.mono (by simp))
  exact ⟨m', _, hrun, hlays.trans (hlaid₁.placed hos h.placed), h.fits⟩

omit [DecidableEq ι] in
lemma Fits.copy {t : CString} (hfits : Fits m j (some t))
    (hlast : m'.small i lastChar = m.small j lastChar) : Fits m' i (some t) := by
  intro u hu
  rw [hlast]
  exact hfits u hu

/-- **A call** returns, and sets its object; the object fits its content if all objects did. -/
lemma Laid.call {u : Update ι} (hlaid : Laid m A) (hu : u.Allowed A)
    (hos : Met os (u.mallocHeap m)) :
    ∃ m' l, u.run m os = .ok m' ∧ Lays A m m' u.target l (u.value A) ∧
      ((∀ j, Fits m j (A j)) → Fits m' u.target (u.value A)) := by
  cases u with
  | construct i src =>
      obtain ⟨m', hrun, hlays, hfits⟩ := hlaid.construct hu.1 hu.2 hos
      exact ⟨m', _, hrun, hlays, fun _ => hfits⟩
  | copyConstruct i j =>
      obtain ⟨t, ht⟩ := Option.ne_none_iff_exists'.mp hu.2
      have hj : j ≠ i := fun hij => hu.2 (hij ▸ hu.1)
      obtain ⟨m', hrun, hlays, hlast⟩ := hlaid.copyFrom hj ht hos
      rw [Update.value, ht]
      exact ⟨m', _, (if_neg hj).trans hrun, hlays, fun hall => (ht ▸ hall j).copy hlast⟩
  | copyAssign i j =>
      obtain ⟨hi, hj, hne⟩ := hu
      obtain ⟨s, hs⟩ := Option.ne_none_iff_exists'.mp hi
      obtain ⟨t, ht⟩ := Option.ne_none_iff_exists'.mp hj
      obtain ⟨m', l, hrun, hlays, hlast⟩ := hlaid.copyAssign hs hne ht hos
      rw [Update.value, ht]
      exact ⟨m', l, hrun, hlays, fun hall => (ht ▸ hall j).copy hlast⟩
  | assign i src =>
      obtain ⟨hi, hok, hnull, hown⟩ := hu
      obtain ⟨s, hs⟩ := Option.ne_none_iff_exists'.mp hi
      obtain ⟨m', l, hrun, hlays, hfits⟩ := hlaid.assign hs hok hnull hown hos
      exact ⟨m', l, hrun, hlays, fun _ => hfits⟩
  | clear i =>
      obtain ⟨s, hs⟩ := Option.ne_none_iff_exists'.mp hu
      obtain ⟨m', hrun, hlays, hzero⟩ := hlaid.clear hs
      refine ⟨m', _, hrun, hlays, fun _ t ht => ?_⟩
      obtain rfl := Option.some.inj ht
      exact hzero lastChar (by decide)
  | destroy i =>
      obtain ⟨s, hs⟩ := Option.ne_none_iff_exists'.mp hu
      obtain ⟨m', hrun, hlays⟩ := hlaid.destroy hs
      exact ⟨m', _, hrun, hlays, fun _ => nofun⟩

/-! ## Lengths beyond `uint32_t` -/

/-- A text whose length is a multiple of `2^32` is as good as an empty one. -/
lemma construct_wrapped (os : Malloc) {s : CString} (hs : u32 s.1.length = 0) :
    m.construct os i (.text s) = m.construct os i (.text emptyText) := by
  have hcpy : ∀ t : CString, (m.memset i).memcpy (.small i) (.text t) 0 =
      .ok ((m.memset i).poke i 0 []) := by
    intro t
    rw [memcpy, storage, ok_bind, if_pos (Nat.zero_le _), List.take_zero, store,
      if_pos (by decide)]
  have hbody : ∀ t : CString, u32 t.1.length = 0 →
      (m.memset i).constructText os i (.text t) = .ok (((m.memset i).poke i 0 []).setLast i
        (((m.memset i).poke i 0 []).small i lastChar ||| (UInt8.ofNat 0 &&& smallLenMask))) := by
    intro t ht
    rw [constructText, (Terminated.text _ t).strlen t.2, ok_bind]
    dsimp only
    rw [ht, if_pos (by decide), hcpy t, ok_bind]
    rfl
  exact (hbody s hs).trans (hbody emptyText rfl).symm

end Strings

end Axon
