import Axon.Core.AxString
import Mathlib.Tactic.IntervalCases

/-!
# What a `string_t` stands for

A `string_t` is its content, whichever of its two representations it is in.

* **`Inline`**, **`InBlock`** : an object shows a content in the one or in the other representation;
  **`Shows`** is either.
* **`Holds`** : the representation is the one for the length, and the last byte says no more than
  that.
* **`Touches`** : what a call may have changed: one object, and the blocks at some addresses.  What
  every other object shows is unchanged.
* **`Placed`**, **`Built`** : a call has given an object a content.
* `clear_spec`, `construct_spec`, `copyFrom_spec`, `assign_spec` : the calls.
-/

namespace Axon

open Library

namespace Strings

variable {ι : Type} {m m' m'' : Strings ι} {i j : ι}

/-! ## Representations -/

/-- A pointer to a content and its `NUL`. -/
def Terminated (m : Strings ι) (p : CPtr ι) (s : List UInt8) : Prop :=
  ∃ rest, m.storage p = .ok (s ++ 0 :: rest)

/-- The content is in the object itself. -/
structure Inline (m : Strings ι) (i : ι) (s : List UInt8) : Prop where
  fits : s.length ≤ maxSmallLen
  bytes : window (m.small i) 0 (s.length + 1) = s ++ [0]
  last : m.small i lastChar = UInt8.ofNat s.length

/-- The content is in a block of the heap, of one byte more than the capacity. -/
structure OnHeap (m : Strings ι) (i : ι) (s : List UInt8) : Prop where
  last : m.small i lastChar = typeMask
  addr : m.dataAddr i ≠ 0
  len : m.largerLen i = s.length
  block : ∃ rest, m.heap.cell (m.dataAddr i) = some (s ++ 0 :: rest) ∧
    s.length + rest.length = m.largerCapacity i

/-- The content is in a block of the heap, whatever its length.  Only the highest bit of the last
byte counts. -/
structure InBlock (m : Strings ι) (i : ι) (s : List UInt8) : Prop where
  last : m.small i lastChar &&& typeMask = typeMask
  addr : m.dataAddr i ≠ 0
  len : m.largerLen i = s.length
  block : ∃ rest, m.heap.cell (m.dataAddr i) = some (s ++ 0 :: rest) ∧
    s.length + rest.length = m.largerCapacity i

/-- An object in either representation.  Lengths, and the sizes of blocks, are `uint32_t`. -/
inductive Shows (m : Strings ι) (i : ι) (s : List UInt8) : Prop where
  | inline (h : m.Inline i s)
  | inBlock (h : m.InBlock i s) (lt : s.length + 1 < 2 ^ 32)

/-- An object in the representation its length asks for.  Lengths, and the sizes of blocks, are
`uint32_t`. -/
structure Holds (m : Strings ι) (i : ι) (s : List UInt8) : Prop where
  lt : s.length + 1 < 2 ^ 32
  inline : s.length ≤ maxSmallLen → m.Inline i s
  onHeap : maxSmallLen < s.length → m.OnHeap i s

/-- The last byte of an object in the representation its length asks for. -/
def lenTag (n : ℕ) : UInt8 := if n ≤ maxSmallLen then UInt8.ofNat n else typeMask

/-- The bytes below 23 are lengths with the type bit clear. -/
lemma small_len_byte {n : ℕ} (hn : n ≤ maxSmallLen) :
    UInt8.ofNat n &&& typeMask = 0 ∧ (UInt8.ofNat n &&& smallLenMask).toNat = n := by
  have hall : ∀ n < 23, UInt8.ofNat n &&& typeMask = 0 ∧
      (UInt8.ofNat n &&& smallLenMask).toNat = n := by decide
  exact hall n (Nat.lt_succ_of_le hn)

lemma mask_small_len {n : ℕ} (hn : n ≤ maxSmallLen) :
    UInt8.ofNat n &&& smallLenMask = UInt8.ofNat n := by
  have hall : ∀ n < 23, UInt8.ofNat n &&& smallLenMask = UInt8.ofNat n := by decide
  exact hall n (Nat.lt_succ_of_le hn)

namespace Inline

variable {s : List UInt8}

lemma isSmall (h : m.Inline i s) : m.IsSmall i := by
  rw [IsSmall, h.last]
  exact (small_len_byte h.fits).1

lemma len_eq (h : m.Inline i s) : m.len i = s.length := by
  rw [len, if_pos h.isSmall, h.last]
  exact (small_len_byte h.fits).2

lemma terminated (h : m.Inline i s) : m.Terminated (m.cStr i) s := by
  have hfits := h.fits
  have hsplit : unionSize = s.length + 1 + (unionSize - (s.length + 1)) := by
    simp only [maxSmallLen, unionSize] at hfits ⊢
    omega
  refine ⟨window (m.small i) (0 + (s.length + 1)) (unionSize - (s.length + 1)), ?_⟩
  rw [cStr, if_pos h.isSmall, storage, hsplit, window_append, h.bytes, List.append_assoc]
  rw [← hsplit]
  rfl

end Inline

namespace InBlock

variable {s : List UInt8}

lemma not_isSmall (h : m.InBlock i s) : ¬ m.IsSmall i := by
  rw [IsSmall, h.last]
  decide

lemma len_eq (h : m.InBlock i s) : m.len i = s.length := by
  rw [Strings.len, if_neg h.not_isSmall, h.len]

lemma data_eq (h : m.InBlock i s) : m.data i = .block (m.dataAddr i) := if_neg h.addr

lemma live (h : m.InBlock i s) : m.heap.Live (m.dataAddr i) := by
  obtain ⟨rest, hcell, -⟩ := h.block
  exact Heap.live_iff.mpr ⟨_, hcell⟩

lemma terminated_data (h : m.InBlock i s) : m.Terminated (m.data i) s := by
  obtain ⟨rest, hcell, -⟩ := h.block
  refine ⟨rest, ?_⟩
  rw [h.data_eq, storage, deref_eq hcell]

lemma cStr_eq (h : m.InBlock i s) : m.cStr i = m.data i := if_neg h.not_isSmall

end InBlock

lemma OnHeap.inBlock {s : List UInt8} (h : m.OnHeap i s) : m.InBlock i s where
  last := by
    rw [h.last]
    rfl
  addr := h.addr
  len := h.len
  block := h.block

namespace Shows

variable {s : List UInt8}

lemma lt (h : m.Shows i s) : s.length + 1 < 2 ^ 32 := by
  cases h with
  | inline h =>
      have hfits := h.fits
      simp only [maxSmallLen, unionSize] at hfits
      omega
  | inBlock _ hlt => exact hlt

lemma inline_of_isSmall (h : m.Shows i s) (hi : m.IsSmall i) : m.Inline i s := by
  cases h with
  | inline h => exact h
  | inBlock h _ => exact absurd hi h.not_isSmall

lemma inBlock_of_not_isSmall (h : m.Shows i s) (hi : ¬ m.IsSmall i) : m.InBlock i s := by
  cases h with
  | inline h => exact absurd h.isSmall hi
  | inBlock h _ => exact h

lemma len_eq (h : m.Shows i s) : m.len i = s.length := by
  cases h with
  | inline h => exact h.len_eq
  | inBlock h _ => exact h.len_eq

lemma terminated (h : m.Shows i s) : m.Terminated (m.cStr i) s := by
  cases h with
  | inline h => exact h.terminated
  | inBlock h _ =>
      rw [h.cStr_eq]
      exact h.terminated_data

end Shows

namespace Holds

variable {s : List UInt8}

lemma shows (h : m.Holds i s) : m.Shows i s := by
  rcases Nat.lt_or_ge maxSmallLen s.length with hlong | hfits
  · exact .inBlock (h.onHeap hlong).inBlock h.lt
  · exact .inline (h.inline hfits)

lemma isSmall_iff (h : m.Holds i s) : m.IsSmall i ↔ s.length ≤ maxSmallLen := by
  constructor
  · intro hsmall
    by_contra hlong
    exact (h.onHeap (Nat.lt_of_not_le hlong)).inBlock.not_isSmall hsmall
  · intro hfits
    exact (h.inline hfits).isSmall

end Holds

/-- **The last byte makes the difference** between an object that shows a content and one in the
representation its length asks for. -/
lemma holds_iff {s : List UInt8} :
    m.Holds i s ↔ m.Shows i s ∧ m.small i lastChar = lenTag s.length := by
  constructor
  · intro h
    refine ⟨h.shows, ?_⟩
    rw [lenTag]
    split_ifs with hfits
    · exact (h.inline hfits).last
    · exact (h.onHeap (Nat.lt_of_not_le hfits)).last
  · rintro ⟨h, hlast⟩
    refine ⟨h.lt, fun hfits => ?_, fun hlong => ?_⟩
    · rw [lenTag, if_pos hfits] at hlast
      refine h.inline_of_isSmall ?_
      rw [IsSmall, hlast]
      exact (small_len_byte hfits).1
    · rw [lenTag, if_neg (Nat.not_le_of_lt hlong)] at hlast
      have hin : m.InBlock i s := h.inBlock_of_not_isSmall (by
        rw [IsSmall, hlast]
        decide)
      exact ⟨hlast, hin.addr, hin.len, hin.block⟩

/-! ## The C library on terminated strings -/

/-- The bytes before the first `NUL`. -/
lemma takeWhile_terminated {s rest : List UInt8} (hs : (0 : UInt8) ∉ s) :
    (s ++ 0 :: rest).takeWhile (· ≠ 0) = s := by
  have hne : ∀ b ∈ s, decide (b ≠ 0) = true := by
    intro b hb
    exact decide_eq_true fun h0 => hs (h0 ▸ hb)
  rw [List.takeWhile_append_of_pos hne]
  simp

/-- Bytes with a `NUL` among them begin with a string. -/
lemma exists_terminated {bs : List UInt8} (h : (0 : UInt8) ∈ bs) :
    ∃ s rest, bs = s ++ 0 :: rest ∧ (0 : UInt8) ∉ s := by
  induction bs with
  | nil => exact absurd h List.not_mem_nil
  | cons b bs ih =>
      by_cases hb : b = 0
      · exact ⟨[], bs, by rw [hb]; rfl, List.not_mem_nil⟩
      · have hmem : (0 : UInt8) ∈ bs := (List.mem_cons.mp h).resolve_left (Ne.symm hb)
        obtain ⟨s, rest, rfl, hs⟩ := ih hmem
        refine ⟨b :: s, rest, rfl, ?_⟩
        rw [List.mem_cons, not_or]
        exact ⟨Ne.symm hb, hs⟩

namespace Terminated

variable {p q : CPtr ι} {s t : List UInt8}

lemma chars (h : m.Terminated p s) (hs : (0 : UInt8) ∉ s) : m.chars p = .ok s := by
  obtain ⟨rest, hstorage⟩ := h
  rw [Strings.chars, hstorage, ok_bind, if_pos (by simp), takeWhile_terminated hs]
  rfl

lemma strlen (h : m.Terminated p s) (hs : (0 : UInt8) ∉ s) : m.strlen p = .ok s.length := by
  rw [Strings.strlen, h.chars hs]
  rfl

lemma sameChars (hp : m.Terminated p s) (hs : (0 : UInt8) ∉ s) (hq : m.Terminated q t)
    (ht : (0 : UInt8) ∉ t) : m.sameChars p q = .ok (decide (s = t)) := by
  rw [Strings.sameChars, hp.chars hs, ok_bind, hq.chars ht]
  rfl

lemma ne_null (h : m.Terminated p s) : p ≠ .null := by
  rintro rfl
  obtain ⟨rest, hstorage⟩ := h
  exact absurd hstorage nofun

lemma text (m : Strings ι) (s : CString) : m.Terminated (.text s) s.1 := ⟨[], rfl⟩

end Terminated

/-- **`equal` compares the contents.** -/
lemma Shows.equalCstr_eq {p : CPtr ι} {s t : List UInt8} (h : m.Shows i s) (hs : (0 : UInt8) ∉ s)
    (hp : m.Terminated p t) (ht : (0 : UInt8) ∉ t) :
    m.equalCstr i p = .ok (decide (s = t)) := by
  have hbody : (do
      let n ← m.strlen p
      if u32 n ≠ m.len i then
        return false
      else if m.IsSmall i then
        m.sameChars (.small i) p
      else
        m.sameChars (m.data i) p) = (.ok (decide (s = t)) : Except Fault Bool) := by
    rw [hp.strlen ht, ok_bind, h.len_eq]
    split_ifs with hlen hsmall
    · have hne : s ≠ t := by
        rintro rfl
        exact hlen (u32_of_lt (by have := h.lt; omega))
      rw [decide_eq_false hne]
      rfl
    · have hc := h.terminated
      rw [cStr, if_pos hsmall] at hc
      exact hc.sameChars hs hp ht
    · have hc := h.terminated
      rw [cStr, if_neg hsmall] at hc
      exact hc.sameChars hs hp ht
  cases p with
  | null => exact absurd rfl hp.ne_null
  | text | small | block => exact hbody

/-! ## What a call changes -/

/-- Only the object `i`, and blocks at the addresses `l`, may differ. -/
structure Touches (m m' : Strings ι) (i : ι) (l : List ℕ) : Prop where
  small : ∀ j, j ≠ i → m'.small j = m.small j
  cell : ∀ a, a ∉ l → m'.heap.cell a = m.heap.cell a

/-- A pointer to storage that such a change leaves alone. -/
def Apart (p : CPtr ι) (i : ι) (l : List ℕ) : Prop :=
  match p with
  | .small j => j ≠ i
  | .block a => a ∉ l
  | _ => True

lemma Apart.mono {p : CPtr ι} {l l' : List ℕ} (hp : Apart p i l') (hsub : l ⊆ l') :
    Apart p i l := by
  cases p with
  | null => trivial
  | text => trivial
  | small => exact hp
  | block => exact fun ha => hp (hsub ha)

namespace Touches

variable {l l' : List ℕ} {s : List UInt8}

lemma trans (h : Touches m m' i l) (h' : Touches m' m'' i l') : Touches m m'' i (l ++ l') where
  small j hj := (h'.small j hj).trans (h.small j hj)
  cell a ha := by
    rw [List.mem_append, not_or] at ha
    exact (h'.cell a ha.2).trans (h.cell a ha.1)

lemma mono (h : Touches m m' i l) (hsub : l ⊆ l') : Touches m m' i l' where
  small := h.small
  cell a ha := h.cell a fun hmem => ha (hsub hmem)

lemma storage (h : Touches m m' i l) {p : CPtr ι} (hp : Apart p i l) :
    m'.storage p = m.storage p := by
  cases p with
  | null => rfl
  | text => rfl
  | small j => rw [Strings.storage, Strings.storage, h.small j hp]
  | block a => rw [Strings.storage, Strings.storage, deref, deref, h.cell a hp]

lemma terminated (h : Touches m m' i l) {p : CPtr ι} (hp : Apart p i l) (hs : m.Terminated p s) :
    m'.Terminated p s := by
  obtain ⟨rest, hstorage⟩ := hs
  exact ⟨rest, (h.storage hp).trans hstorage⟩

/-- The fields of another object. -/
lemma isSmall_iff (h : Touches m m' i l) (hj : j ≠ i) : m'.IsSmall j ↔ m.IsSmall j := by
  rw [IsSmall, IsSmall, h.small j hj]

lemma dataAddr (h : Touches m m' i l) (hj : j ≠ i) : m'.dataAddr j = m.dataAddr j := by
  rw [Strings.dataAddr, Strings.dataAddr, h.small j hj]

lemma data (h : Touches m m' i l) (hj : j ≠ i) : m'.data j = m.data j := by
  rw [Strings.data, Strings.data, h.dataAddr hj]

lemma largerLen (h : Touches m m' i l) (hj : j ≠ i) : m'.largerLen j = m.largerLen j := by
  rw [Strings.largerLen, Strings.largerLen, h.small j hj]

lemma cStr (h : Touches m m' i l) (hj : j ≠ i) : m'.cStr j = m.cStr j := by
  simp only [Strings.cStr, h.isSmall_iff hj, h.data hj]

/-- **What another object shows is unchanged**, unless it is in a block that was touched. -/
lemma shows (h : Touches m m' i l) (hj : j ≠ i) (hl : ¬ m.IsSmall j → m.dataAddr j ∉ l)
    (hs : m.Shows j s) : m'.Shows j s := by
  cases hs with
  | inline hin =>
      exact .inline ⟨hin.fits, by rw [h.small j hj, hin.bytes], by rw [h.small j hj, hin.last]⟩
  | inBlock hin hlt =>
      obtain ⟨rest, hcell, hcap⟩ := hin.block
      refine .inBlock ⟨by rw [h.small j hj, hin.last], by rw [h.dataAddr hj]; exact hin.addr,
        by rw [h.largerLen hj, hin.len], rest, ?_, ?_⟩ hlt
      · rw [h.dataAddr hj, h.cell _ (hl hin.not_isSmall), hcell]
      · rw [hcap, largerCapacity, largerCapacity, h.small j hj]

lemma holds (h : Touches m m' i l) (hj : j ≠ i) (hl : ¬ m.IsSmall j → m.dataAddr j ∉ l)
    (hs : m.Holds j s) : m'.Holds j s := by
  obtain ⟨hshows, hlast⟩ := holds_iff.mp hs
  exact holds_iff.mpr ⟨h.shows hj hl hshows, by rw [h.small j hj, hlast]⟩

end Touches

/-! ## Stores into an object -/

section Stores

variable [DecidableEq ι] {off : ℕ} {bs : List UInt8} {l : List ℕ} {os : Malloc}

@[simp] lemma poke_small_self : (m.poke i off bs).small i = blit (m.small i) off bs :=
  Function.update_self ..

lemma poke_touches : Touches m (m.poke i off bs) i l where
  small _ hj := Function.update_of_ne hj ..
  cell _ _ := rfl

/-- The fields of `larger_` that `string_t` uses, and the last byte of the union. -/
structure Header where
  data : ℕ
  len : ℕ
  capacity : ℕ
  last : UInt8

/-- The fields stored in an object. -/
def header (m : Strings ι) (i : ι) : Header :=
  ⟨m.dataAddr i, m.largerLen i, m.largerCapacity i, m.small i lastChar⟩

omit [DecidableEq ι] in
lemma dataAddr_of_header {a n cap : ℕ} {c : UInt8} (h : m.header i = ⟨a, n, cap, c⟩) :
    m.dataAddr i = a :=
  (Header.mk.inj h).1

omit [DecidableEq ι] in
lemma largerCapacity_of_header {a n cap : ℕ} {c : UInt8} (h : m.header i = ⟨a, n, cap, c⟩) :
    m.largerCapacity i = cap :=
  (Header.mk.inj h).2.2.1

omit [DecidableEq ι] in
lemma header_congr (h : m'.small i = m.small i) : m'.header i = m.header i := by
  rw [header, header, dataAddr, dataAddr, largerLen, largerLen, largerCapacity, largerCapacity, h]

lemma header_setData {p : ℕ} (hp : p < 2 ^ 64) :
    (m.setData i p).header i = { m.header i with data := p } := by
  have hdata : (m.setData i p).dataAddr i = p := by
    have hself := window_blit_self (m.small i) 0 (leBytes 8 p)
    rw [length_leBytes] at hself
    rw [dataAddr, setData, poke_small_self, hself, leValue_leBytes]
    omega
  rw [header, hdata, largerLen, largerCapacity, setData, poke_small_self,
    word32_blit_of_outside _ (by simp), word32_blit_of_outside _ (by simp),
    blit_of_outside _ (by simp [lastChar, unionSize])]
  rfl

lemma header_setLargerLen {n : ℕ} (hn : n < 2 ^ 32) :
    (m.setLargerLen i n).header i = { m.header i with len := n } := by
  rw [header, dataAddr, largerLen, largerCapacity, setLargerLen, poke_small_self,
    window_blit_of_le _ _ (by decide), word32_blit_self _ _ hn,
    word32_blit_of_outside _ (by simp), blit_of_outside _ (by simp [lastChar, unionSize])]
  rfl

lemma header_setLargerCapacity {n : ℕ} (hn : n < 2 ^ 32) :
    (m.setLargerCapacity i n).header i = { m.header i with capacity := n } := by
  rw [header, dataAddr, largerLen, largerCapacity, setLargerCapacity, poke_small_self,
    window_blit_of_le _ _ (by decide), word32_blit_self _ _ hn,
    word32_blit_of_outside _ (by simp), blit_of_outside _ (by simp [lastChar, unionSize])]
  rfl

lemma header_setLast {c : UInt8} : (m.setLast i c).header i = { m.header i with last := c } := by
  have hlast : (m.setLast i c).small i lastChar = c := by
    rw [setLast, poke_small_self]
    exact blit_apply _ lastChar [c] (i := 0) (by simp)
  rw [header, hlast, dataAddr, largerLen, largerCapacity, setLast, poke_small_self,
    window_blit_of_le _ _ (by decide), word32_blit_of_outside _ (by simp [lastChar, unionSize]),
    word32_blit_of_outside _ (by simp [lastChar, unionSize])]
  rfl

omit [DecidableEq ι] in
/-- An object whose header is complete, and its block. -/
lemma InBlock.of_header {a cap : ℕ} {c : UInt8} {s rest : List UInt8} (ha : a ≠ 0)
    (hheader : m.header i = ⟨a, s.length, cap, c⟩) (hc : c &&& typeMask = typeMask)
    (hcell : m.heap.cell a = some (s ++ 0 :: rest)) (hcap : s.length + rest.length = cap) :
    m.InBlock i s := by
  obtain ⟨hdata, hlen, hcapacity, hlast⟩ := Header.mk.inj hheader
  refine ⟨hlast ▸ hc, hdata.trans_ne ha, hlen, rest, ?_, ?_⟩
  · rw [hdata, hcell]
  · rw [hcapacity, hcap]

/-! ## Blocks -/

/-- The request for memory is met: `malloc` returns an address of the machine where there is no
block. -/
structure Met (os : Malloc) (h : Heap (List UInt8)) : Prop where
  ne_null : os.addr ≠ 0
  lt : os.addr < 2 ^ 64
  fresh : ¬ h.Live os.addr

/-- An object points to a new block of `n` bytes, and nothing else has changed. -/
structure Reserved (m₀ m : Strings ι) (i : ι) (a n : ℕ) : Prop where
  touches : Touches m₀ m i [a]
  addr_ne : a ≠ 0
  data : m.dataAddr i = a
  cell : ∃ old, m.heap.cell a = some old ∧ old.length = n

/-- `larger_.data_ = (char*)malloc(n)`. -/
lemma malloc_spec (hos : Met os m.heap) (n : ℕ) :
    Reserved m ((m.malloc os n).setData i os.addr) i os.addr n ∧
      ((m.malloc os n).setData i os.addr).header i = { m.header i with data := os.addr } := by
  have hmalloc : m.malloc os n = { m with heap := m.heap.put os.addr (window os.junk 0 n) } :=
    if_neg hos.ne_null
  have htouch : Touches m (m.malloc os n) i [os.addr] := by
    refine ⟨fun j _ => by rw [hmalloc], fun a ha => ?_⟩
    rw [hmalloc, Heap.cell_put_of_ne (fun h => ha (List.mem_singleton.mpr h))]
  have hsame : (m.malloc os n).header i = m.header i := header_congr (by rw [hmalloc])
  have hheader : ((m.malloc os n).setData i os.addr).header i =
      { m.header i with data := os.addr } := by
    rw [header_setData hos.lt, hsame]
  have hset : Touches (m.malloc os n) ((m.malloc os n).setData i os.addr) i [] := poke_touches
  have hdata : ((m.malloc os n).setData i os.addr).dataAddr i = os.addr :=
    dataAddr_of_header hheader
  refine ⟨⟨(htouch.trans hset).mono (by simp), hos.ne_null, hdata, window os.junk 0 n, ?_,
    length_window ..⟩, hheader⟩
  rw [heap_setData, hmalloc, Heap.cell_put_self]

omit [DecidableEq ι] in
lemma Reserved.data_eq {m₀ : Strings ι} {a n : ℕ} (h : Reserved m₀ m i a n) :
    m.data i = .block a := by
  rw [Strings.data, h.data, if_neg h.addr_ne]

/-- A store into a block. -/
lemma store_block {a : ℕ} {old : List UInt8} (hcell : m.heap.cell a = some old)
    (hle : bs.length ≤ old.length) :
    ∃ m', m.store (.block a) bs = .ok m' ∧ Touches m m' i [a] ∧ m'.small = m.small ∧
      m'.heap.cell a = some (bs ++ old.drop bs.length) := by
  refine ⟨{ m with heap := m.heap.write a fun old => bs ++ old.drop bs.length }, ?_,
    ⟨fun _ _ => rfl, fun b hb => ?_⟩, rfl, ?_⟩
  · rw [store, deref_eq hcell, ok_bind, if_pos hle]
    rfl
  · exact Function.update_of_ne (fun hba => hb (List.mem_singleton.mpr hba)) ..
  · simp only [Heap.write, hcell, Option.map_some, Function.update_self]

/-- A store into the new block. -/
lemma Reserved.store {m₀ : Strings ι} {a n : ℕ} {old : List UInt8} (h : Reserved m₀ m i a n)
    (bs : List UInt8) (hcell : m.heap.cell a = some old) (hbs : bs.length ≤ n)
    (hn : old.length = n) :
    ∃ m', m.store (m.data i) bs = .ok m' ∧ Reserved m₀ m' i a n ∧ m'.small = m.small ∧
      m'.heap.cell a = some (bs ++ old.drop bs.length) := by
  have hle : bs.length ≤ old.length := by rwa [hn]
  obtain ⟨m', hok, htouch, hsmall, hcell'⟩ := store_block (m := m) (i := i) hcell hle
  refine ⟨m', ?_, ⟨(h.touches.trans htouch).mono (by simp), h.addr_ne, ?_, _, hcell', ?_⟩, hsmall,
    hcell'⟩
  · rw [h.data_eq, hok]
  · rw [dataAddr, hsmall]
    exact h.data
  · rw [List.length_append, List.length_drop, hn, Nat.add_sub_cancel' hbs]

/-- The whole block is filled. -/
lemma Reserved.fill {m₀ : Strings ι} {a n : ℕ} (h : Reserved m₀ m i a n) (bs : List UInt8)
    (hbs : bs.length = n) :
    ∃ m', m.store (m.data i) bs = .ok m' ∧ Reserved m₀ m' i a n ∧ m'.small = m.small ∧
      m'.heap.cell a = some bs := by
  obtain ⟨old, hcell, hlen⟩ := h.cell
  obtain ⟨m', hok, hres, hsmall, hcell'⟩ := h.store bs hcell (Nat.le_of_eq hbs) hlen
  refine ⟨m', hok, hres, hsmall, ?_⟩
  rw [hcell', List.drop_eq_nil_of_le (by omega), List.append_nil]

/-- `memcpy` of a string and its `NUL`. -/
lemma memcpy_eq {p q : CPtr ι} {s : List UInt8} (hq : m.Terminated q s) :
    m.memcpy p q (s.length + 1) = m.store p (s ++ [0]) := by
  obtain ⟨rest, hstorage⟩ := hq
  have htake : (s ++ 0 :: rest).take (s.length + 1) = s ++ [0] := by
    rw [List.take_append, List.take_of_length_le (Nat.le_succ _), Nat.add_sub_cancel_left]
    rfl
  rw [memcpy, hstorage, ok_bind, if_pos (by simp), htake]

lemma strcpy_eq {p q : CPtr ι} {s : List UInt8} (hq : m.Terminated q s) (hs : (0 : UInt8) ∉ s) :
    m.strcpy p q = m.store p (s ++ [0]) := by
  rw [strcpy, hq.chars hs, ok_bind]

/-! ## The member functions -/

/-- A call has given the object `i` a content, with `a` for the address of a new block. -/
structure Placed (m m' : Strings ι) (i : ι) (a : ℕ) (s : List UInt8) : Prop where
  touches : Touches m m' i [a]
  shows : m'.Shows i s
  data : ¬ m'.IsSmall i → m'.dataAddr i = a

/-- The same, in the representation the length asks for. -/
structure Built (m m' : Strings ι) (i : ι) (a : ℕ) (s : List UInt8) : Prop where
  touches : Touches m m' i [a]
  holds : m'.Holds i s
  data : ¬ m'.IsSmall i → m'.dataAddr i = a

omit [DecidableEq ι] in
lemma Built.placed {a : ℕ} {s : List UInt8} (h : Built m m' i a s) : Placed m m' i a s :=
  ⟨h.touches, h.holds.shows, h.data⟩

omit [DecidableEq ι] in
lemma Placed.built {a : ℕ} {s : List UInt8} (h : Placed m m' i a s)
    (hlast : m'.small i lastChar = lenTag s.length) : Built m m' i a s :=
  ⟨h.touches, holds_iff.mpr ⟨h.shows, hlast⟩, h.data⟩

omit [DecidableEq ι] in
lemma Placed.of_inline {a : ℕ} {s : List UInt8} (htouch : Touches m m' i []) (h : m'.Inline i s) :
    Placed m m' i a s where
  touches := htouch.mono (List.nil_subset _)
  shows := .inline h
  data hi := absurd h.isSmall hi

omit [DecidableEq ι] in
lemma Built.of_inline {a : ℕ} {s : List UInt8} (htouch : Touches m m' i []) (h : m'.Inline i s) :
    Built m m' i a s :=
  (Placed.of_inline htouch h).built (by rw [h.last, lenTag, if_pos h.fits])

omit [DecidableEq ι] in
lemma Placed.of_header {a cap : ℕ} {c : UInt8} {s rest : List UInt8}
    (htouch : Touches m m' i [a]) (ha : a ≠ 0) (hlt : s.length + 1 < 2 ^ 32)
    (hheader : m'.header i = ⟨a, s.length, cap, c⟩) (hc : c &&& typeMask = typeMask)
    (hcell : m'.heap.cell a = some (s ++ 0 :: rest)) (hcap : s.length + rest.length = cap) :
    Placed m m' i a s where
  touches := htouch
  shows := .inBlock (.of_header ha hheader hc hcell hcap) hlt
  data _ := dataAddr_of_header hheader

omit [DecidableEq ι] in
lemma Built.of_header {a : ℕ} {s : List UInt8} (htouch : Touches m m' i [a]) (ha : a ≠ 0)
    (hlong : maxSmallLen < s.length) (hlt : s.length + 1 < 2 ^ 32)
    (hheader : m'.header i = ⟨a, s.length, s.length, typeMask⟩)
    (hcell : m'.heap.cell a = some (s ++ [0])) : Built m m' i a s := by
  refine (Placed.of_header htouch ha hlt hheader rfl hcell rfl).built ?_
  rw [lenTag, if_neg (Nat.not_le_of_lt hlong)]
  exact congrArg Header.last hheader

lemma memset_zero {k : ℕ} (hk : k < unionSize) : (m.memset i).small i k = 0 := by
  have hblit := blit_apply (m.small i) 0 (List.replicate unionSize 0) (i := k) (by simpa using hk)
  rw [memset, poke_small_self, ← Nat.zero_add k, hblit, List.getElem_replicate]

omit [DecidableEq ι] in
/-- An object of zeros is the empty string. -/
lemma Inline.of_zero (h : ∀ k < unionSize, m.small i k = 0) : m.Inline i [] where
  fits := Nat.zero_le _
  bytes := by
    show [m.small i 0] = [0]
    rw [h 0 (by decide)]
  last := h lastChar (by decide)

/-- A string stored at the start of an object, and its length in the last byte. -/
lemma Inline.of_poke {s : List UInt8} (hfits : s.length ≤ maxSmallLen) {c : UInt8}
    (hbytes : window (m.small i) 0 (s.length + 1) = s ++ [0]) (hc : c = UInt8.ofNat s.length) :
    (m.setLast i c).Inline i s where
  fits := hfits
  bytes := by
    have hle : 0 + (s.length + 1) ≤ lastChar := by
      simp only [lastChar, maxSmallLen, unionSize] at hfits ⊢
      omega
    rw [setLast, poke_small_self, window_blit_of_le _ _ hle, hbytes]
  last := (congrArg Header.last header_setLast).trans hc

/-- The blocks of an object. -/
def owned (m : Strings ι) (i : ι) : List ℕ := if m.IsSmall i then [] else [m.dataAddr i]

omit [DecidableEq ι] in
lemma InBlock.destroy_eq {s : List UInt8} (h : m.InBlock i s) :
    m.destroy i = .ok { m with heap := m.heap.free (m.dataAddr i) } := by
  rw [destroy, if_neg h.not_isSmall, freeData, h.data_eq]
  dsimp only
  rw [release_eq h.live]
  rfl

omit [DecidableEq ι] in
/-- **`~string_t`** gives the block back. -/
lemma destroy_spec {s : List UInt8} (h : m.Shows i s) :
    ∃ m', m.destroy i = .ok m' ∧ Touches m m' i (m.owned i) := by
  by_cases hi : m.IsSmall i
  · refine ⟨m, ?_, fun _ _ => rfl, fun _ _ => rfl⟩
    rw [destroy, if_pos hi]
  · refine ⟨_, (h.inBlock_of_not_isSmall hi).destroy_eq, fun _ _ => rfl, fun a ha => ?_⟩
    rw [owned, if_neg hi] at ha
    rw [Heap.cell_free_of_ne (fun h => ha (List.mem_singleton.mpr h))]

lemma clear_eq : m.clear i = m.destroy i >>= fun m => .ok (m.memset i) := by
  rw [clear, destroy]
  split_ifs <;> rfl

/-- **`clear`** gives the block back and leaves zeros. -/
lemma clear_spec {s : List UInt8} (h : m.Shows i s) :
    ∃ m', m.clear i = .ok m' ∧ Touches m m' i (m.owned i) ∧ ∀ k < unionSize, m'.small i k = 0 := by
  obtain ⟨m₁, hdestroy, htouch⟩ := destroy_spec h
  have hset : Touches m₁ (m₁.memset i) i [] := poke_touches
  refine ⟨m₁.memset i, ?_, (htouch.trans hset).mono (by simp), fun k => memset_zero⟩
  rw [clear_eq, hdestroy, ok_bind]

/-- **`string_t(cstr)`** of a short text. -/
lemma constructText_short {p : CPtr ι} {s : List UInt8} (hp : m.Terminated p s)
    (hs : (0 : UInt8) ∉ s) (hfits : s.length ≤ maxSmallLen)
    (hzero : ∀ k < unionSize, m.small i k = 0) (a : ℕ) :
    ∃ m', m.constructText os i p = .ok m' ∧ Built m m' i a s := by
  have hlen : s.length < lastChar := Nat.lt_succ_of_le hfits
  have hu : u32 s.length = s.length := u32_of_lt (hlen.trans (by decide))
  obtain ⟨rest, hstorage⟩ := hp
  have hcpy : m.memcpy (.small i) p s.length = .ok (m.poke i 0 s) := by
    rw [memcpy, hstorage, ok_bind, if_pos (by simp), List.take_left, store,
      if_pos (hlen.le.trans (by decide))]
  have hout : ∀ k, s.length ≤ k → k < unionSize → (m.poke i 0 s).small i k = 0 := by
    intro k hk hlt
    rw [poke_small_self, blit_of_outside _ (Or.inr (by omega)), hzero k hlt]
  have hbytes : window ((m.poke i 0 s).small i) 0 (s.length + 1) = s ++ [0] := by
    rw [window_append, Nat.zero_add, show window _ s.length 1 = [_] from rfl,
      hout s.length le_rfl (hlen.trans (by decide)), poke_small_self, window_blit_self]
  have hlast : (m.poke i 0 s).small i lastChar ||| (UInt8.ofNat s.length &&& smallLenMask) =
      UInt8.ofNat s.length := by
    rw [hout lastChar hlen.le (by decide), mask_small_len hfits, UInt8.zero_or]
  refine ⟨_, ?_, Built.of_inline ?_ (Inline.of_poke hfits hbytes hlast)⟩
  · rw [constructText, Terminated.strlen ⟨rest, hstorage⟩ hs, ok_bind]
    dsimp only
    rw [hu, if_pos ⟨hfits, hlen⟩, hcpy, ok_bind]
    rfl
  · have hset : Touches m (m.poke i 0 s) i [] := poke_touches
    exact hset.trans poke_touches

/-- **`string_t(cstr)`** of a long text. -/
lemma constructText_long {p : CPtr ι} {s : List UInt8} (hp : m.Terminated p s)
    (hs : (0 : UInt8) ∉ s) (hlong : maxSmallLen < s.length) (hlt : s.length + 1 < 2 ^ 32)
    (hos : Met os m.heap) (hap : Apart p i [os.addr]) :
    ∃ m', m.constructText os i p = .ok m' ∧ Built m m' i os.addr s := by
  have hu : u32 s.length = s.length := u32_of_lt (by omega)
  have hu' : u32 (s.length + 1) = s.length + 1 := u32_of_lt hlt
  set m₁ := (m.setLargerLen i s.length).setLargerCapacity i s.length with hm₁
  have htouch₁ : Touches m m₁ i [] := by
    have hlen : Touches m (m.setLargerLen i s.length) i [] := poke_touches
    exact hlen.trans poke_touches
  have hheader₁ : m₁.header i =
      ⟨m.dataAddr i, s.length, s.length, m.small i lastChar⟩ := by
    rw [hm₁, header_setLargerCapacity (by omega), header_setLargerLen (by omega)]
    rfl
  obtain ⟨hres, hheader₂⟩ := malloc_spec (m := m₁) (i := i) hos (s.length + 1)
  set m₂ := (m₁.malloc os (s.length + 1)).setData i os.addr with hm₂
  obtain ⟨m₃, hstore, hres₃, hsmall, hcell⟩ := hres.fill (s ++ [0]) (by simp)
  have hp₂ : m₂.Terminated p s :=
    (htouch₁.trans hres.touches).terminated (hap.mono (by simp)) hp
  refine ⟨m₃.setLast i typeMask, ?_, Built.of_header ?_ hres.addr_ne hlong hlt ?_ hcell⟩
  · rw [constructText, hp.strlen hs, ok_bind]
    dsimp only
    rw [hu, hu', if_neg (by omega), ← hm₁, ← hm₂, memcpy_eq hp₂, hstore, ok_bind]
    rfl
  · exact ((htouch₁.trans hres₃.touches).trans poke_touches).mono (l := [] ++ [os.addr] ++ [])
      (by simp)
  · rw [header_setLast, header_congr (congrFun hsmall i), hheader₂, hheader₁]

/-- **`string_t(cstr)`**, of a text and of `NULL`. -/
lemma construct_spec {p : CPtr ι} {s : List UInt8} (hp : m.Terminated p s) (hs : (0 : UInt8) ∉ s)
    (hlt : s.length + 1 < 2 ^ 32) (hos : Met os m.heap) (hap : Apart p i [os.addr]) :
    ∃ m', m.construct os i p = .ok m' ∧ Built m m' i os.addr s := by
  have hset : Touches m (m.memset i) i [] := poke_touches
  have hp₁ : (m.memset i).Terminated p s := hset.terminated (hap.mono (List.nil_subset _)) hp
  have hbody : ∃ m', (m.memset i).constructText os i p = .ok m' ∧
      Built (m.memset i) m' i os.addr s := by
    rcases Nat.lt_or_ge maxSmallLen s.length with hlong | hfits
    · exact constructText_long hp₁ hs hlong hlt hos hap
    · exact constructText_short hp₁ hs hfits (fun k => memset_zero) os.addr
  obtain ⟨m', hok, hbuilt⟩ := hbody
  refine ⟨m', ?_, (hset.trans hbuilt.touches).mono (by simp), hbuilt.holds, hbuilt.data⟩
  cases p with
  | null => exact absurd rfl hp.ne_null
  | text | small | block => exact hok

lemma construct_null (a : ℕ) :
    ∃ m', m.construct os i .null = .ok m' ∧ Built m m' i a [] :=
  ⟨m.memset i, rfl, .of_inline poke_touches (.of_zero fun _ => memset_zero)⟩

/-- **The copy** of another object, in the representation of that object. -/
lemma copyFrom_spec {s : List UInt8} (hij : j ≠ i) (h : m.Shows j s) (hos : Met os m.heap) :
    ∃ m', m.copyFrom os i j = .ok m' ∧ Placed m m' i os.addr s ∧
      m'.small i lastChar = m.small j lastChar := by
  by_cases hj : m.IsSmall j
  · have hin := h.inline_of_isSmall hj
    -- the object has become the other one, byte for byte
    have hsame : ∀ k < unionSize,
        (m.poke i 0 (window (m.small j) 0 unionSize)).small i k = m.small j k := by
      intro k hk
      have hwin := window_blit_self (m.small i) 0 (window (m.small j) 0 unionSize)
      rw [length_window] at hwin
      rw [poke_small_self, ← Nat.zero_add k]
      exact eq_of_window_eq hwin k hk
    refine ⟨m.poke i 0 (window (m.small j) 0 unionSize), ?_, Placed.of_inline poke_touches
      ⟨hin.fits, ?_, ?_⟩, hsame lastChar (by decide)⟩
    · rw [copyFrom, if_pos hj, memcpy, storage, ok_bind, if_pos (length_window ..).ge,
        List.take_of_length_le (length_window ..).le, store, if_pos (length_window ..).le]
    · refine (window_congr fun k hk => ?_).trans hin.bytes
      have hfits := hin.fits
      rw [Nat.zero_add]
      refine hsame k ?_
      simp only [maxSmallLen, unionSize] at hfits ⊢
      omega
    · exact (hsame lastChar (by decide)).trans hin.last
  · have hon := h.inBlock_of_not_isSmall hj
    have hlt := h.lt
    have hu : u32 (m.largerLen j + 1) = s.length + 1 := by rw [hon.len, u32_of_lt hlt]
    obtain ⟨hres, hheader₁⟩ := malloc_spec (m := m) (i := i) hos (s.length + 1)
    set m₁ := (m.malloc os (s.length + 1)).setData i os.addr with hm₁
    obtain ⟨m₂, hstore, hres₂, hsmall, hcell⟩ := hres.fill (s ++ [0]) (by simp)
    have htouch₂ := hres₂.touches
    have hsrc : m₁.Terminated (m₁.data j) s := by
      have hterm := hon.terminated_data
      rw [hon.data_eq] at hterm
      rw [hres.touches.data hij, hon.data_eq]
      refine hres.touches.terminated (fun hmem => ?_) hterm
      exact hos.fresh (List.mem_singleton.mp hmem ▸ hon.live)
    have hlen₂ : m₂.largerLen j = s.length := (htouch₂.largerLen hij).trans hon.len
    set m₃ := m₂.setLargerLen i s.length with hm₃
    have htouch₃ : Touches m₂ m₃ i [] := poke_touches
    have hheader₃ : m₃.header i = ⟨os.addr, s.length, m.largerCapacity i, m.small i lastChar⟩ := by
      rw [hm₃, header_setLargerLen (by omega), header_congr (congrFun hsmall i), hheader₁]
      rfl
    have hlen₃ : m₃.largerLen i = s.length := congrArg Header.len hheader₃
    set m₄ := m₃.setLargerCapacity i s.length with hm₄
    have htouch₄ : Touches m₃ m₄ i [] := poke_touches
    have hlast₄ : m₄.small j lastChar = m.small j lastChar := by
      rw [((htouch₂.trans htouch₃).trans htouch₄).small j hij]
    refine ⟨m₄.setLast i (m.small j lastChar), ?_,
      Placed.of_header ?_ hres.addr_ne hlt ?_ hon.last hcell (Nat.add_zero _),
      congrArg Header.last header_setLast⟩
    · rw [copyFrom, if_neg hj]
      dsimp only
      rw [hu, ← hm₁, memcpy_eq hsrc, hstore, ok_bind, hlen₂, ← hm₃, hlen₃, ← hm₄, hlast₄]
      rfl
    · exact (((htouch₂.trans htouch₃).trans htouch₄).trans poke_touches).mono
        (l := [os.addr] ++ [] ++ [] ++ []) (by simp)
    · rw [header_setLast, hm₄, header_setLargerCapacity (by omega), hheader₃]

/-- **`assign`** of a text the object's own `clear` leaves alone. -/
lemma assign_spec {p : CPtr ι} {s : List UInt8} (hp : m.Terminated p s) (hs : (0 : UInt8) ∉ s)
    (hlt : s.length + 1 < 2 ^ 32) (hclear : m.clear i = .ok m') (hp' : m'.Terminated p s)
    (hos : Met os m'.heap) (hap : Apart p i [os.addr]) :
    ∃ m'', m.assign os i p = .ok m'' ∧ Built m' m'' i os.addr s := by
  have hu : u32 s.length = s.length := u32_of_lt (by omega)
  have hu' : u32 (s.length + 1) = s.length + 1 := u32_of_lt hlt
  rcases Nat.lt_or_ge maxSmallLen s.length with hlong | hfits
  · obtain ⟨hres, hheader₁⟩ := malloc_spec (m := m') (i := i) hos (s.length + 1)
    set m₁ := (m'.malloc os (s.length + 1)).setData i os.addr with hm₁
    set m₂ := m₁.setLargerCapacity i s.length with hm₂
    have htouch₁ : Touches m₁ m₂ i [] := poke_touches
    have hheader₂ : m₂.header i = ⟨os.addr, m'.largerLen i, s.length, m'.small i lastChar⟩ := by
      rw [hm₂, header_setLargerCapacity (by omega), hheader₁]
      rfl
    have hres₂ : Reserved m' m₂ i os.addr (s.length + 1) :=
      ⟨(hres.touches.trans htouch₁).mono (by simp), hres.addr_ne,
        dataAddr_of_header hheader₂, hres.cell⟩
    obtain ⟨m₃, hstore, hres₃, hsmall, hcell⟩ := hres₂.fill (s ++ [0]) (by simp)
    have hp₂ : m₂.Terminated p s := hres₂.touches.terminated hap hp'
    have hset : Touches m₃ (m₃.setLargerLen i s.length) i [] := poke_touches
    refine ⟨(m₃.setLargerLen i s.length).setLast i typeMask, ?_,
      Built.of_header ?_ hres.addr_ne hlong hlt ?_ hcell⟩
    · rw [assign, hp.strlen hs, ok_bind]
      dsimp only
      rw [hu, hu', hclear, ok_bind, if_pos hlong, ← hm₁, ← hm₂, strcpy_eq hp₂ hs, hstore, ok_bind]
      rfl
    · exact ((hres₃.touches.trans hset).trans poke_touches).mono (l := [os.addr] ++ [] ++ [])
        (by simp)
    · rw [header_setLast, header_setLargerLen (by omega), header_congr (congrFun hsmall i),
        hheader₂]
  · have hroom : (s ++ [0]).length ≤ unionSize := by
      simp only [maxSmallLen, unionSize, List.length_append, List.length_singleton] at hfits ⊢
      omega
    have hbytes : window ((m'.poke i 0 (s ++ [0])).small i) 0 (s.length + 1) = s ++ [0] := by
      have hself := window_blit_self (m'.small i) 0 (s ++ [0])
      rwa [List.length_append, List.length_singleton, ← poke_small_self] at hself
    refine ⟨_, ?_, Built.of_inline ?_ (Inline.of_poke hfits hbytes (mask_small_len hfits))⟩
    · rw [assign, hp.strlen hs, ok_bind]
      dsimp only
      rw [hu, hclear, ok_bind, if_neg (by omega), strcpy_eq hp' hs, store, if_pos hroom]
      rfl
    · have hset : Touches m' (m'.poke i 0 (s ++ [0])) i [] := poke_touches
      exact hset.trans poke_touches

end Stores

end Strings

end Axon
